import LoxLang.Proofs.EnclosedValues
import LoxLang.Proofs.NestedScopes
import LoxLang.Proofs.Scoping
import Mathlib.Data.List.Forall2

/-!
Stores with one more frame.  A program inside of a block keeps the names that it declares in the
frame of the block and not in the global one; the other global names stay where they are, and all
other frames are one address further.  Which of the global names have moved grows as the program
goes on, so a reference that finds a global name by the name in one store may find it by its
distance in the other one.
-/

set_option autoImplicit false
set_option relaxedAutoImplicit false

namespace LoxLang

open Std (TreeMap)

/-- The distances recorded for a program and for the same program inside of a block, and the names
that the program declares outside of all blocks. -/
structure Rebinding where
  plain : Distances
  braced : Distances
  declared : List String

namespace Rebinding

variable (R : Rebinding) (N : List String)

/-- How both sides find the name of a reference inside some scopes: in one of these, in the global
scope where some names are already declared, or among the names that stay global. -/
inductive Binds (depth : Nat) (id : ExprId) (name : String) : Prop where
  | inner {d : Nat} :
      d < depth → R.plain[id]? = some d → R.braced[id]? = some d → Binds depth id name
  | moved : R.plain[id]? = none → R.braced[id]? = some depth → name ∈ N → Binds depth id name
  | global : R.plain[id]? = none → R.braced[id]? = none → name ∉ R.declared → Binds depth id name

/-- An expression whose name both sides find when some names are declared.  A superclass is found
in an inner scope. -/
structure Meets (e : Expr) (Γ : StaticStack) : Prop where
  binds : ∀ id name, e.reference? = some (id, name) → R.Binds N Γ.length id name.lexeme
  super : ∀ id keyword method, e = .super id keyword method →
    ∃ d < Γ.length, R.plain[id]? = some d ∧ R.braced[id]? = some d

variable {R N} {N' : List String}

theorem Meets.grow (more : N ⊆ N') {e : Expr} {Γ : StaticStack} (h : R.Meets N e Γ) :
    R.Meets N' e Γ where
  binds id name refers := by
    cases h.binds id name refers with
    | inner inside plain braced => exact .inner inside plain braced
    | moved plain braced declared => exact .moved plain braced (more declared)
    | global plain braced other => exact .global plain braced other
  super := h.super

end Rebinding

def Known.apart : Known := ⟨fun _ s => s.frame ≠ Scope.globals.frame, fun _ _ => True⟩

private theorem Stands.frames {missing : Option String} {Γ : StaticStack} {s : Scope}
    (h : Stands .apart missing Γ s) :
    ∃ fs, s.frames = fs ++ [0] ∧ fs.length = Γ.length ∧ 0 ∉ fs := by
  induction h with
  | globals => exact ⟨[], rfl, rfl, List.not_mem_nil⟩
  | @inside _ _ _ f _ opened _ _ ih =>
    obtain ⟨fs, frames, length, inner⟩ := ih
    refine ⟨f :: fs, congrArg (f :: ·) frames, congrArg (· + 1) length, fun member => ?_⟩
    rcases List.mem_cons.mp member with same | member
    · exact opened same.symm
    · exact inner member

section

variable {missing : Option String} {Γ : StaticStack} {s : Scope}

private theorem Stands.frame_inner (h : Stands .apart missing Γ s) {d : Nat}
    (inside : d < Γ.length) :
    ∃ f, f ≠ 0 ∧ s.frames[d]? = some f ∧ s.enclosed.frames[d]? = some (f + 1) := by
  obtain ⟨fs, frames, length, inner⟩ := h.frames
  have bound : d < fs.length := length ▸ inside
  refine ⟨fs[d], fun same => inner (same ▸ List.getElem_mem bound), ?_, ?_⟩
  · rw [frames, List.getElem?_append_left bound, List.getElem?_eq_getElem bound]
  · rw [s.frames_enclosed, frames, List.map_append, List.append_assoc,
      List.getElem?_append_left (by simpa using bound), List.getElem?_map,
      List.getElem?_eq_getElem bound, Option.map_some]

private theorem Stands.frame_outer (h : Stands .apart missing Γ s) :
    s.enclosed.frames[Γ.length]? = some 1 := by
  obtain ⟨fs, frames, length, _⟩ := h.frames
  rw [s.frames_enclosed, frames, ← length]
  simp

end

def home (N : List String) (f : FrameId) (name : String) : FrameId :=
  if f = 0 ∧ name ∉ N then 0 else f + 1

def Homes (N : List String) (name : String) (f f' : FrameId) : Prop := f' = home N f name

section

variable {N : List String} {f g : FrameId} {name : String}

theorem home_inner (inner : f ≠ 0) : home N f name = f + 1 := if_neg fun h => inner h.1

theorem home_moved (moved : name ∈ N) : home N f name = f + 1 := if_neg fun h => h.2 moved

private theorem home_global (other : name ∉ N) : home N 0 name = 0 := if_pos ⟨rfl, other⟩

private theorem home_inj : home N f name = home N g name ↔ f = g := by
  unfold home
  by_cases moved : name ∈ N
  · simp [moved]
  · by_cases hf : f = 0 <;> by_cases hg : g = 0 <;> simp [moved, hf, hg]
    exact fun same => hg same.symm

end

section Relations

variable (R : Rebinding) (N : List String)

/-- The same value, with one more frame around all that it closes over.  A function that sets up an
object closes over the frame of that object. -/
structure ValueEnclosed (v v' : Value) : Prop where
  same : v' = v.enclosed
  closed : v.Scoped (R.Meets N) .apart
  apart : ∀ c, v = .callable (.function c) → c.isInitializer → c.scope.frame ≠ 0

def BindingsEnclosed (b b' : Bindings) : Prop :=
  ∀ name : String, Option.Rel (ValueEnclosed R N) b[name]? b'[name]?

/-- A second store has one more frame, in which those global names are kept that are declared. -/
structure StoreEnclosed (m m' : Store) : Prop where
  size : m'.frames.size = m.frames.size + 1
  globals : 0 < m.frames.size
  declared : ∀ name ∈ N, name ∈ R.declared
  held : ∀ name ∈ N, m.holds 0 name
  kept : ∀ f name,
    Option.Rel (ValueEnclosed R N) (m.local? f name) (m'.local? (home N f name) name)
  objects : m'.objects.size = m.objects.size
  fields : ∀ (id : ObjectId) (name : String), Option.Rel (ValueEnclosed R N)
    (m.objects[id]?.bind (·[name]?)) (m'.objects[id]?.bind (·[name]?))
  nextClass : m'.nextClass = m.nextClass

/-- A second execution is in the same state, with one more frame. -/
structure MachineEnclosed (m m' : Machine) : Prop where
  store : StoreEnclosed R N m.store m'.store
  scope : m'.scope = m.scope.enclosed
  depth : m'.depth = m.depth
  printed : m'.printed = m.printed
  readings : m'.readings = m.readings

end Relations

variable {R : Rebinding} {N N' : List String}

theorem ValueEnclosed.grow (more : N ⊆ N') {v v' : Value} (h : ValueEnclosed R N v v') :
    ValueEnclosed R N' v v' :=
  ⟨h.same, h.closed.widen fun _ _ => Rebinding.Meets.grow more, h.apart⟩

theorem ValueEnclosed.ofClass {k : Class} (h : k.Scoped (R.Meets N) .apart) :
    ValueEnclosed R N (.callable (.ofClass k)) (.callable (.ofClass k.enclosed)) :=
  ⟨rfl, h, fun _ same => by cases same⟩

theorem ValueEnclosed.object {o : Object} (h : o.kind.Scoped (R.Meets N) .apart) :
    ValueEnclosed R N (.object o) (.object o.enclosed) :=
  ⟨rfl, h, fun _ same => by cases same⟩

private theorem Option.Rel.imp {α β : Type} {P Q : α → β → Prop} (h : ∀ a b, P a b → Q a b)
    {o : Option α} {o' : Option β} (rel : Option.Rel P o o') : Option.Rel Q o o' := by
  cases rel with
  | none => exact .none
  | some rel => exact .some (h _ _ rel)

theorem BindingsEnclosed.empty : BindingsEnclosed R N ∅ ∅ := by
  intro name
  rw [TreeMap.getElem?_emptyc]
  exact .none

theorem BindingsEnclosed.insert {b b' : Bindings} (h : BindingsEnclosed R N b b') (name : String)
    {v v' : Value} (hv : ValueEnclosed R N v v') :
    BindingsEnclosed R N (b.insert name v) (b'.insert name v') := by
  intro key
  rw [TreeMap.getElem?_insert, TreeMap.getElem?_insert]
  split
  · exact .some hv
  · exact h key

/-- Arguments are bound to parameters one after the other on both sides. -/
theorem BindingsEnclosed.bindAll {b b' : Bindings} (h : BindingsEnclosed R N b b')
    (names : List String) {args args' : List Value}
    (hargs : List.Forall₂ (ValueEnclosed R N) args args') :
    BindingsEnclosed R N
      ((names.zip args).foldl (fun b (name, v) => b.insert name v) b)
      ((names.zip args').foldl (fun b (name, v) => b.insert name v) b') := by
  induction hargs generalizing names b b' with
  | nil => simpa using h
  | cons first _ ih =>
    cases names with
    | nil => simpa using h
    | cons name names => exact ih (h.insert name first) names

namespace StoreEnclosed

variable {m m' : Store}

/-! What is found in a store. -/

theorem getInner? (h : StoreEnclosed R N m m') {missing : Option String} {Γ : StaticStack}
    {s : Scope} (stands : Stands .apart missing Γ s) {d : Nat} (inside : d < Γ.length)
    (name : String) :
    Option.Rel (ValueEnclosed R N) (m.getAt? s d name) (m'.getAt? s.enclosed d name) := by
  obtain ⟨f, inner, frame, frame'⟩ := stands.frame_inner inside
  have kept := h.kept f name
  rw [home_inner inner] at kept
  rw [Store.getAt?_eq, Store.getAt?_eq, frame, frame']
  exact kept

private theorem getGlobal? (m : Store) (name : String) : m.get? .globals name = m.local? 0 name :=
  by
  simp only [Store.get?, Scope.globals, Scope.frames, List.findSome?_cons, List.findSome?_nil]
  cases m.local? 0 name <;> rfl

theorem getMoved? (h : StoreEnclosed R N m m') {missing : Option String} {Γ : StaticStack}
    {s : Scope} (stands : Stands .apart missing Γ s) {name : String} (moved : name ∈ N) :
    ∃ v v', ValueEnclosed R N v v' ∧ m.get? .globals name = some v ∧
      m'.getAt? s.enclosed Γ.length name = some v' := by
  have held := h.held name moved
  have kept := h.kept 0 name
  rw [home_moved moved] at kept
  rw [getGlobal?, Store.getAt?_eq, stands.frame_outer]
  unfold Store.holds at held
  rw [Option.bind_some]
  generalize m.local? 0 name = v, m'.local? 1 name = v' at held kept ⊢
  cases kept with
  | none => cases held
  | some hv => exact ⟨_, _, hv, rfl, rfl⟩

theorem getOther? (h : StoreEnclosed R N m m') {name : String} (other : name ∉ R.declared) :
    Option.Rel (ValueEnclosed R N) (m.get? .globals name) (m'.get? .globals name) := by
  have kept := h.kept 0 name
  rw [home_global fun moved => other (h.declared name moved)] at kept
  rw [getGlobal?, getGlobal?]
  exact kept

private theorem holds_home (h : StoreEnclosed R N m m') (f : FrameId) (name : String) :
    m'.holds (home N f name) name = m.holds f name := by
  have kept := h.kept f name
  unfold Store.holds
  generalize m.local? f name = v, m'.local? (home N f name) name = v' at kept ⊢
  cases kept <;> rfl

theorem holderInner? (h : StoreEnclosed R N m m') {missing : Option String} {Γ : StaticStack}
    {s : Scope} (stands : Stands .apart missing Γ s) {d : Nat} (inside : d < Γ.length)
    (name : String) :
    Option.Rel (Homes N name) (m.holderAt? s d name) (m'.holderAt? s.enclosed d name) := by
  obtain ⟨f, inner, frame, frame'⟩ := stands.frame_inner inside
  have holds := h.holds_home f name
  rw [home_inner inner] at holds
  rw [Store.holderAt?_eq, Store.holderAt?_eq, frame, frame', Option.filter_some, Option.filter_some,
    holds]
  split
  · exact .some (home_inner inner).symm
  · exact .none

private theorem globalHolder? (m : Store) (name : String) :
    m.holder? .globals name = if m.holds 0 name then some 0 else none := by
  simp only [Store.holder?, Scope.globals, Scope.frames, List.find?_cons, List.find?_nil]
  cases m.holds 0 name <;> rfl

theorem holderMoved? (h : StoreEnclosed R N m m') {missing : Option String} {Γ : StaticStack}
    {s : Scope} (stands : Stands .apart missing Γ s) {name : String} (moved : name ∈ N) :
    m.holder? .globals name = some 0 ∧ m'.holderAt? s.enclosed Γ.length name = some 1 := by
  have holds := h.holds_home 0 name
  rw [home_moved moved, h.held name moved] at holds
  rw [globalHolder?, Store.holderAt?_eq, stands.frame_outer, Option.filter_some, h.held name moved]
  exact ⟨rfl, if_pos holds⟩

theorem holderOther? (h : StoreEnclosed R N m m') {name : String} (other : name ∉ R.declared) :
    Option.Rel (Homes N name) (m.holder? .globals name) (m'.holder? .globals name) := by
  have global : home N 0 name = 0 := home_global fun moved => other (h.declared name moved)
  have holds := h.holds_home 0 name
  rw [global] at holds
  rw [globalHolder?, globalHolder?, holds]
  split
  · exact .some global.symm
  · exact .none

/-! Changes of a store. -/

theorem newScope (h : StoreEnclosed R N m m') {b b' : Bindings} (hb : BindingsEnclosed R N b b')
    (s : Scope) :
    (m'.newScope b' (some s.enclosed)).1 = (m.newScope b (some s)).1.enclosed ∧
      StoreEnclosed R N (m.newScope b (some s)).2 (m'.newScope b' (some s.enclosed)).2 := by
  have size' : (m.newScope b (some s)).2.frames.size = m.frames.size + 1 := Array.size_push _
  refine ⟨by rw [Store.newScope, h.size]; rfl, ?_⟩
  have old : ∀ f name, f ≠ m.frames.size →
      (m.newScope b (some s)).2.local? f name = m.local? f name := by
    intro f name other
    rw [Store.local?_newScope, if_neg other]
  have notGlobal : 0 ≠ m.frames.size := Nat.ne_of_lt h.globals
  exact {
    size := by rw [size']; exact (Array.size_push _).trans (congrArg (· + 1) h.size)
    globals := size' ▸ Nat.succ_pos _
    declared := h.declared
    held := by
      intro name moved
      rw [Store.holds, old 0 name notGlobal]
      exact h.held name moved
    kept := by
      intro f name
      rw [Store.local?_newScope, Store.local?_newScope, h.size]
      by_cases new : f = m.frames.size
      · subst new
        rw [if_pos rfl, if_pos (home_inner notGlobal.symm)]
        exact hb name
      · have inner : home N m.frames.size name = m.frames.size + 1 := home_inner notGlobal.symm
        have other : home N f name ≠ m.frames.size + 1 := by
          rw [← inner]
          exact fun same => new (home_inj.mp same)
        rw [if_neg new, if_neg other]
        exact h.kept f name
    objects := h.objects
    fields := h.fields
    nextClass := h.nextClass }

private theorem home_lt (h : StoreEnclosed R N m m') {f : FrameId} {name : String} :
    home N f name < m'.frames.size ↔ f < m.frames.size := by
  have globals := h.globals
  rw [h.size, home]
  split <;> rename_i where_
  · exact iff_of_true (Nat.succ_pos _) (where_.1 ▸ globals)
  · exact Nat.add_lt_add_iff_right

theorem setLocal (h : StoreEnclosed R N m m') (f : FrameId) (name : String) {v v' : Value}
    (hv : ValueEnclosed R N v v') :
    StoreEnclosed R N (m.setLocal f name v) (m'.setLocal (home N f name) name v') where
  size := by simp [Store.setLocal, h.size]
  globals := by simp [Store.setLocal, h.globals]
  declared := h.declared
  held := by
    intro key moved
    rw [Store.holds, Store.local?_setLocal]
    split
    · rfl
    · exact h.held key moved
  kept := by
    intro g key
    rw [Store.local?_setLocal, Store.local?_setLocal]
    by_cases same : name = key
    · subst same
      simp only [home_inj, h.home_lt]
      split
      · exact .some hv
      · exact h.kept g name
    · rw [if_neg fun h => same h.2.1, if_neg fun h => same h.2.1]
      exact h.kept g key
  objects := h.objects
  fields := h.fields
  nextClass := h.nextClass

/-- A name is declared outside of all blocks: on one side it is a global one, on the other side it
belongs to the block.  Its value may refer to the name. -/
theorem declare (h : StoreEnclosed R N m m') {name : String} (declared : name ∈ R.declared)
    {v v' : Value} (hv : ValueEnclosed R (name :: N) v v') :
    StoreEnclosed R (name :: N) (m.setLocal 0 name v) (m'.setLocal 1 name v') where
  size := by simp [Store.setLocal, h.size]
  globals := by simp [Store.setLocal, h.globals]
  declared := List.forall_mem_cons.mpr ⟨declared, h.declared⟩
  held := by
    intro key moved
    rw [Store.holds, Store.local?_setLocal]
    split
    · rfl
    · rename_i other
      rcases List.mem_cons.mp moved with rfl | moved
      · exact absurd ⟨rfl, rfl, h.globals⟩ other
      · exact h.held key moved
  kept := by
    intro g key
    rw [Store.local?_setLocal, Store.local?_setLocal]
    have before := Option.Rel.imp (fun _ _ => ValueEnclosed.grow (List.subset_cons_self name N))
      (h.kept g key)
    by_cases same : name = key
    · subst same
      rw [home_moved List.mem_cons_self]
      by_cases global : g = 0
      · subst global
        have there : 1 < m'.frames.size := h.size ▸ Nat.succ_lt_succ h.globals
        rw [if_pos ⟨rfl, rfl, h.globals⟩, if_pos ⟨rfl, rfl, there⟩]
        exact .some hv
      · rw [home_inner global] at before
        rw [if_neg fun h => global h.1.symm, if_neg fun h => global (Nat.succ.inj h.1).symm]
        exact before
    · have unmoved : home (name :: N) g key = home N g key := by
        simp [home, Ne.symm same]
      rw [if_neg fun h => same h.2.1, if_neg fun h => same h.2.1, unmoved]
      exact before
  objects := h.objects
  fields id key :=
    Option.Rel.imp (fun _ _ => ValueEnclosed.grow (List.subset_cons_self name N)) (h.fields id key)
  nextClass := h.nextClass

theorem newObject (h : StoreEnclosed R N m m') (k : Class) :
    (m'.newObject k.enclosed).1 = (m.newObject k).1.enclosed ∧
      StoreEnclosed R N (m.newObject k).2 (m'.newObject k.enclosed).2 := by
  refine ⟨by rw [Store.newObject, h.objects]; rfl, ?_⟩
  exact {
    size := h.size
    globals := h.globals
    declared := h.declared
    held := h.held
    kept := h.kept
    objects := by simp [Store.newObject, h.objects]
    fields := by
      intro id name
      rw [m.getElem?_newObject, m'.getElem?_newObject]
      exact h.fields id name
    nextClass := h.nextClass }

theorem newClass (h : StoreEnclosed R N m m') :
    m'.newClass.1 = m.newClass.1 ∧ StoreEnclosed R N m.newClass.2 m'.newClass.2 :=
  ⟨h.nextClass, { h with nextClass := congrArg (· + 1) h.nextClass }⟩

theorem setField (h : StoreEnclosed R N m m') (o : Object) (name : String) {v v' : Value}
    (hv : ValueEnclosed R N v v') :
    StoreEnclosed R N (m.setField o name v) (m'.setField o.enclosed name v') where
  size := h.size
  globals := h.globals
  declared := h.declared
  held := h.held
  kept := h.kept
  objects := by simp [Store.setField, h.objects]
  fields := by
    intro id key
    rw [m.getElem?_setField, m'.getElem?_setField, Object.enclosed, h.objects]
    split
    · exact .some hv
    · exact h.fields id key
  nextClass := h.nextClass

end StoreEnclosed

end LoxLang
