import LoxLang.Machine
import LoxLang.Proofs.EnclosedStores
import LoxLang.Proofs.RelinedValues

/-!
What is stored when functions were declared on other lines: the same frames and objects, with the
same values in them but for those lines.
-/

set_option autoImplicit false
set_option relaxedAutoImplicit false

namespace LoxLang

open Std (TreeMap)

def BindingsRelined (line : Nat → Nat) (b b' : Bindings) : Prop :=
  ∀ name : String, b'[name]? = b[name]?.map (Value.reline line)

/-- The same is stored, declared on other lines. -/
structure StoreRelined (line : Nat → Nat) (m m' : Store) : Prop where
  frames : m'.frames.size = m.frames.size
  locals : ∀ frame name, m'.local? frame name = (m.local? frame name).map (Value.reline line)
  objects : m'.objects.size = m.objects.size
  fields : ∀ (id : ObjectId) (name : String), m'.objects[id]?.bind (·[name]?) =
    (m.objects[id]?.bind (·[name]?)).map (Value.reline line)
  nextClass : m'.nextClass = m.nextClass

/-- An execution in the same state, with functions declared on other lines. -/
structure MachineRelined (line : Nat → Nat) (m m' : Machine) : Prop where
  store : StoreRelined line m.store m'.store
  scope : m'.scope = m.scope
  depth : m'.depth = m.depth
  printed : m'.printed = m.printed
  readings : m'.readings = m.readings

variable {line : Nat → Nat}

theorem BindingsRelined.empty : BindingsRelined line ∅ ∅ := by
  intro name
  simp only [TreeMap.getElem?_emptyc, Option.map_none]

theorem BindingsRelined.insert {b b' : Bindings} (h : BindingsRelined line b b') (name : String)
    (v : Value) : BindingsRelined line (b.insert name v) (b'.insert name (v.reline line)) := by
  intro key
  simp only [TreeMap.getElem?_insert, Std.compare_eq_iff_eq]
  split
  · rfl
  · exact h key

/-- Arguments are bound to parameters one after the other on both sides. -/
theorem BindingsRelined.bindAll {b b' : Bindings} (h : BindingsRelined line b b')
    (names : List String) (args : List Value) :
    BindingsRelined line ((names.zip args).foldl (fun b arg => b.insert arg.1 arg.2) b)
      ((names.zip (args.map (Value.reline line))).foldl
        (fun b arg => b.insert arg.1 arg.2) b') := by
  induction args generalizing names b b' with
  | nil => simpa using h
  | cons v args ih =>
    cases names with
    | nil => simpa using h
    | cons name names => exact ih (h.insert name v) names

namespace StoreRelined

variable {m m' : Store} (h : StoreRelined line m m')

include h

theorem newScope {b b' : Bindings} (hb : BindingsRelined line b b') (s : Option Scope) :
    (m'.newScope b' s).1 = (m.newScope b s).1 ∧
      StoreRelined line (m.newScope b s).2 (m'.newScope b' s).2 := by
  refine ⟨by simp only [Store.newScope, h.frames], ?_⟩
  exact { h with
    frames := by simp [Store.newScope, h.frames]
    locals := by
      intro frame name
      rw [Store.local?_newScope, Store.local?_newScope, h.frames]
      split
      · exact hb name
      · exact h.locals frame name }

theorem setLocal (frame : FrameId) (name : String) (v : Value) :
    StoreRelined line (m.setLocal frame name v) (m'.setLocal frame name (v.reline line)) := by
  exact { h with
    frames := by simp [Store.setLocal, h.frames]
    locals := by
      intro other key
      rw [Store.local?_setLocal, Store.local?_setLocal, h.frames]
      split
      · rfl
      · exact h.locals other key }

theorem newObject (kind : Class) :
    (m'.newObject (kind.reline line)).1 = (m.newObject kind).1.reline line ∧
      StoreRelined line (m.newObject kind).2 (m'.newObject (kind.reline line)).2 := by
  refine ⟨by simp only [Store.newObject, Object.reline, h.objects], ?_⟩
  exact { h with
    objects := by simp [Store.newObject, h.objects]
    fields := by
      intro id name
      rw [m.getElem?_newObject, m'.getElem?_newObject]
      exact h.fields id name }

theorem newClass :
    m'.newClass.1 = m.newClass.1 ∧ StoreRelined line m.newClass.2 m'.newClass.2 :=
  ⟨h.nextClass, { h with nextClass := congrArg (· + 1) h.nextClass }⟩

theorem setField (o : Object) (name : String) (v : Value) :
    StoreRelined line (m.setField o name v)
      (m'.setField (o.reline line) name (v.reline line)) := by
  exact { h with
    objects := by simp [Store.setField, h.objects]
    fields := by
      intro id key
      rw [m.getElem?_setField, m'.getElem?_setField, Object.reline, h.objects]
      split
      · rfl
      · exact h.fields id key }

theorem bind (c : Closure) (o : Object) :
    (m'.bind (c.reline line) (o.reline line)).1 = (m.bind c o).1.reline line ∧
      StoreRelined line (m.bind c o).2 (m'.bind (c.reline line) (o.reline line)).2 := by
  have receiver : BindingsRelined line _ _ := BindingsRelined.empty.insert "this" (.object o)
  obtain ⟨scope, stored⟩ := h.newScope receiver (some c.scope)
  exact ⟨congrArg (fun scope => { c.reline line with scope }) scope, stored⟩

private theorem holds (frame : FrameId) (name : String) :
    m'.holds frame name = m.holds frame name := by
  rw [Store.holds, h.locals, Option.isSome_map, Store.holds]

theorem field? (o : Object) (name : String) :
    m'.field? (o.reline line) name = (m.field? o name).map (Value.reline line) :=
  h.fields o.id name

theorem getAt? (s : Scope) (distance : Nat) (name : String) :
    m'.getAt? s distance name = (m.getAt? s distance name).map (Value.reline line) := by
  rw [Store.getAt?_eq, Store.getAt?_eq]
  cases s.frames[distance]? with
  | none => rfl
  | some frame => exact h.locals frame name

theorem get? (s : Scope) (name : String) :
    m'.get? s name = (m.get? s name).map (Value.reline line) := by
  unfold Store.get?
  induction s.frames with
  | nil => rfl
  | cons frame frames ih =>
    rw [List.findSome?_cons, List.findSome?_cons, h.locals]
    cases m.local? frame name with
    | none => exact ih
    | some v => rfl

theorem holderAt? (s : Scope) (distance : Nat) (name : String) :
    m'.holderAt? s distance name = m.holderAt? s distance name := by
  simp only [Store.holderAt?, h.holds]

theorem holder? (s : Scope) (name : String) : m'.holder? s name = m.holder? s name := by
  simp only [Store.holder?, h.holds]

end StoreRelined

/-! Whatever is stored can be thought of as declared on other lines. -/

def Store.reline (line : Nat → Nat) (m : Store) : Store where
  frames := m.frames.map (TreeMap.map fun _ => Value.reline line)
  objects := m.objects.map (TreeMap.map fun _ => Value.reline line)
  nextClass := m.nextClass

theorem Store.relined_reline (m : Store) : StoreRelined line m (m.reline line) where
  frames := Array.size_map
  locals frame name := by
    simp only [Store.local?, Store.reline, Array.getElem?_map]
    cases m.frames[frame]? with
    | none => rfl
    | some b => exact TreeMap.getElem?_map
  objects := Array.size_map
  fields id name := by
    simp only [Store.reline, Array.getElem?_map]
    cases m.objects[id]? with
    | none => rfl
    | some b => exact TreeMap.getElem?_map
  nextClass := rfl

def Machine.reline (line : Nat → Nat) (m : Machine) : Machine :=
  { m with store := m.store.reline line }

theorem Machine.relined_reline (m : Machine) : MachineRelined line m (m.reline line) :=
  ⟨m.store.relined_reline, rfl, rfl, rfl, rfl⟩

end LoxLang
