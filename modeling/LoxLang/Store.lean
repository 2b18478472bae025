import LoxLang.Value
import Std.Data.TreeMap

/-!
What a program has stored: the variables of every frame and the fields of every object.  Frames
and objects are only added, never removed, and are addressed by the order of their creation.
-/

set_option autoImplicit false
set_option relaxedAutoImplicit false

namespace LoxLang

open Std (TreeMap)

/-- Names and their values. -/
abbrev Bindings := TreeMap String Value

/-- The variables of the frames, the fields of the objects, and the identity of the next class. -/
structure Store where
  frames : Array Bindings
  objects : Array Bindings
  nextClass : ClassId

namespace Store

def empty : Store := ⟨#[], #[], 0⟩

/-- Adds a frame with some variables inside a scope, if any. -/
def newScope (m : Store) (bindings : Bindings) (enclosing : Option Scope) : Scope × Store :=
  (.inside m.frames.size enclosing, { m with frames := m.frames.push bindings })

/-- Adds an object without fields. -/
def newObject (m : Store) (kind : Class) : Object × Store :=
  (⟨m.objects.size, kind⟩, { m with objects := m.objects.push ∅ })

/-- Hands out the identity of a class. -/
def newClass (m : Store) : ClassId × Store := (m.nextClass, { m with nextClass := m.nextClass + 1 })

def local? (m : Store) (frame : FrameId) (name : String) : Option Value :=
  m.frames[frame]?.bind (·[name]?)

/-- A frame that is added holds its variables, and the others hold what they held. -/
theorem local?_newScope (m : Store) (b : Bindings) (s : Option Scope) (frame : FrameId)
    (name : String) : (m.newScope b s).2.local? frame name =
      if frame = m.frames.size then b[name]? else m.local? frame name := by
  unfold newScope local?
  simp only [Array.getElem?_push]
  split <;> rfl

theorem frame_newScope (m : Store) (bindings : Bindings) (enclosing : Option Scope) :
    (m.newScope bindings enclosing).1.frame = m.frames.size := by
  cases enclosing <;> rfl

theorem size_newScope (m : Store) (bindings : Bindings) (enclosing : Option Scope) :
    (m.newScope bindings enclosing).2.frames.size = m.frames.size + 1 :=
  Array.size_push _

def setLocal (m : Store) (frame : FrameId) (name : String) (v : Value) : Store :=
  { m with frames := m.frames.modify frame (·.insert name v) }

theorem local?_setLocal (m : Store) (frame other : FrameId) (name key : String) (v : Value) :
    (m.setLocal frame name v).local? other key =
      if frame = other ∧ name = key ∧ frame < m.frames.size then some v
      else m.local? other key := by
  unfold local? setLocal
  simp only [Array.getElem?_modify]
  by_cases hframe : frame = other
  · subst hframe
    by_cases hsize : frame < m.frames.size
    · by_cases hname : name = key
      · subst hname
        simp [hsize]
      · simp [hsize, hname, TreeMap.getElem?_insert]
    · simp [hsize]
  · simp [hframe]

/-- Defines a name in the innermost frame of a scope, replacing what it held. -/
def define (m : Store) (s : Scope) (name : String) (v : Value) : Store := m.setLocal s.frame name v

def holds (m : Store) (frame : FrameId) (name : String) : Bool := (m.local? frame name).isSome

/-- The value of a name in the nearest frame of a scope that holds it. -/
def get? (m : Store) (s : Scope) (name : String) : Option Value :=
  s.frames.findSome? (m.local? · name)

/-- The nearest frame of a scope that holds a name. -/
def holder? (m : Store) (s : Scope) (name : String) : Option FrameId :=
  s.frames.find? (m.holds · name)

/-- Sets a name in the nearest frame of a scope that holds it; nothing if none does. -/
def assign? (m : Store) (s : Scope) (name : String) (v : Value) : Option Store :=
  (m.holder? s name).map (m.setLocal · name v)

/-- The value of a name in the frame a number of frames out, without a search. -/
def getAt? (m : Store) (s : Scope) (distance : Nat) (name : String) : Option Value :=
  (s.ancestor? distance).bind fun s => m.local? s.frame name

/-- The frame a number of frames out, if it holds a name. -/
def holderAt? (m : Store) (s : Scope) (distance : Nat) (name : String) : Option FrameId :=
  ((s.ancestor? distance).map Scope.frame).filter (m.holds · name)

/-- Sets a name in the frame a number of frames out, which must hold it. -/
def assignAt? (m : Store) (s : Scope) (distance : Nat) (name : String) (v : Value) :
    Option Store :=
  (m.holderAt? s distance name).map (m.setLocal · name v)

def names (m : Store) (s : Scope) : List String := (m.frames[s.frame]?.getD ∅).keys

/-- The innermost frame of a scope for inspection: its names, and whether it stands inside another
one. -/
def inspect (m : Store) (s : Scope) : String :=
  let names := String.intercalate ", " ((m.names s).map Text.inspected)
  let enclosed := if s.outer.isEmpty then "false" else "true"
  "Environment \x7b names: [" ++ names ++ "], has_enclosing: " ++ enclosed ++ " \x7d"

def field? (m : Store) (o : Object) (name : String) : Option Value :=
  m.objects[o.id]?.bind (·[name]?)

def setField (m : Store) (o : Object) (name : String) (v : Value) : Store :=
  { m with objects := m.objects.modify o.id (·.insert name v) }

theorem getElem?_setField (m : Store) (o : Object) (id : ObjectId) (name key : String) (v : Value) :
    (m.setField o name v).objects[id]?.bind (·[key]?) =
      if o.id = id ∧ name = key ∧ id < m.objects.size then some v
      else m.objects[id]?.bind (·[key]?) := by
  simp only [setField, Array.getElem?_modify]
  by_cases here : o.id = id
  · by_cases made : id < m.objects.size
    · by_cases same : name = key <;> simp [here, made, same, TreeMap.getElem?_insert]
    · simp [here, made]
  · simp [here]

theorem size_newObject (m : Store) (k : Class) :
    (m.newObject k).2.objects.size = m.objects.size + 1 :=
  Array.size_push _

theorem getElem?_newObject (m : Store) (kind : Class) (id : ObjectId) (key : String) :
    (m.newObject kind).2.objects[id]?.bind (·[key]?) = m.objects[id]?.bind (·[key]?) := by
  simp only [newObject, Array.getElem?_push]
  split
  · rename_i new
    rw [new, Array.getElem?_eq_none (Nat.le_refl _)]
    exact TreeMap.getElem?_emptyc
  · rfl

/-- A function bound to an object: its scope is a new frame that holds `this`. -/
def bind (m : Store) (c : Closure) (o : Object) : Closure × Store :=
  let (scope, m) := m.newScope ((∅ : Bindings).insert "this" (.object o)) (some c.scope)
  ({ c with scope }, m)

end Store

end LoxLang
