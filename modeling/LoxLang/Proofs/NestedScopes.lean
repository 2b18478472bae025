import LoxLang.Store
import Mathlib.Data.Nat.Find

/-!
Scopes as nested maps.  Scopes that are made one after the other, each inside an earlier one or
inside none, form a forest, whatever is defined and assigned in them meanwhile.  A name can be
looked for from a scope outward, or addressed by a distance; the two agree, as the search stops at
the least distance at which the name is held.
-/

set_option autoImplicit false
set_option relaxedAutoImplicit false

namespace LoxLang

private theorem Scope.frame_ancestor? (s : Scope) (d : Nat) :
    (s.ancestor? d).map Scope.frame = s.frames[d]? := by
  unfold Scope.ancestor?
  rw [← List.head?_drop]
  split <;> rename_i h <;> rw [h] <;> rfl

namespace Store

section

variable (m : Store) (s : Scope) (d : Nat) (name : String)

theorem getAt?_eq : m.getAt? s d name = s.frames[d]?.bind (m.local? · name) := by
  rw [← s.frame_ancestor?, Store.getAt?]
  cases s.ancestor? d <;> rfl

theorem holderAt?_eq : m.holderAt? s d name = s.frames[d]?.filter (m.holds · name) := by
  rw [← s.frame_ancestor?, Store.holderAt?]

end

variable {m : Store} {s : Scope} {d : Nat} {name : String}

private theorem isSome_get?_iff : (m.get? s name).isSome ↔ ∃ d, (m.getAt? s d name).isSome := by
  simp only [get?, List.findSome?_isSome_iff, getAt?_eq, List.mem_iff_getElem?]
  constructor
  · rintro ⟨frame, ⟨d, here⟩, held⟩
    exact ⟨d, by rwa [here]⟩
  · rintro ⟨d, held⟩
    obtain ⟨v, held⟩ := Option.isSome_iff_exists.mp held
    obtain ⟨frame, here, held⟩ := Option.bind_eq_some_iff.mp held
    exact ⟨frame, ⟨d, here⟩, Option.isSome_of_eq_some held⟩

private theorem search_eq_first (held : (m.getAt? s d name).isSome)
    (first : ∀ d' < d, m.getAt? s d' name = none) :
    m.get? s name = m.getAt? s d name ∧ m.holder? s name = m.holderAt? s d name := by
  simp only [getAt?_eq, holderAt?_eq, get?, holder?, holds] at held first ⊢
  generalize s.frames = frames at held first ⊢
  induction frames generalizing d with
  | nil => simp at held
  | cons frame frames ih =>
    cases d with
    | zero =>
      obtain ⟨v, here⟩ := Option.isSome_iff_exists.mp held
      rw [List.getElem?_cons_zero, Option.bind_some] at here
      simp [here, Option.filter]
    | succ d =>
      have missing : m.local? frame name = none := by simpa using first 0 (Nat.succ_pos d)
      have further := ih (d := d) (by simpa using held) fun d' lt => by
        simpa using first (d' + 1) (Nat.succ_lt_succ lt)
      simpa [List.findSome?_cons, List.find?_cons, missing] using further

private theorem exists_first (found : ∃ d, (m.getAt? s d name).isSome) :
    ∃ d, (m.getAt? s d name).isSome ∧ ∀ d' < d, m.getAt? s d' name = none :=
  ⟨Nat.find found, Nat.find_spec found,
    fun _ lt => Option.not_isSome_iff_eq_none.mp (Nat.find_min found lt)⟩

private theorem isSome_assignAt?_iff {v : Value} :
    (m.assignAt? s d name v).isSome ↔ (m.getAt? s d name).isSome := by
  rw [assignAt?, Option.isSome_map, holderAt?_eq, getAt?_eq]
  cases s.frames[d]? with
  | none => rfl
  | some frame => by_cases held : (m.local? frame name).isSome <;> simp [Option.filter, holds, held]

private theorem assignAt?_eq_some {v : Value} {m' : Store} (h : m.assignAt? s d name v = some m') :
    ∃ t, s.ancestor? d = some t ∧ m' = m.setLocal t.frame name v := by
  obtain ⟨frame, held, rfl⟩ := Option.map_eq_some_iff.mp h
  obtain ⟨t, out, rfl⟩ := Option.map_eq_some_iff.mp (Option.filter_eq_some_iff.mp held).1
  exact ⟨t, out, rfl⟩

end Store

/-- Scopes in the order in which they were made, and what is stored in them. -/
structure Forest where
  store : Store
  scopes : List Scope

namespace Forest

/-- What can be done with a forest.  Scopes are told by the order in which they were made. -/
inductive Step where
  /-- Makes a scope, inside an earlier one if that is there. -/
  | create (enclosing : Option Nat)
  | define (scope : Nat) (name : String) (v : Value)
  | assign (scope : Nat) (name : String) (v : Value)
  | assignAt (scope distance : Nat) (name : String) (v : Value)

/-- The forest behind a step; a step that fails leads to none. -/
def after? (f : Forest) : Step → Option Forest
  | .create enclosing =>
    let (s, store) := f.store.newScope ∅ (enclosing.bind (f.scopes[·]?))
    some ⟨store, f.scopes ++ [s]⟩
  | .define i name v =>
    f.scopes[i]?.map fun s => { f with store := f.store.define s name v }
  | .assign i name v =>
    f.scopes[i]?.bind fun s => (f.store.assign? s name v).map ({ f with store := · })
  | .assignAt i distance name v =>
    f.scopes[i]?.bind fun s => (f.store.assignAt? s distance name v).map ({ f with store := · })

/-- Takes a step, or leaves everything as it is if the step fails. -/
def perform (f : Forest) (step : Step) : Forest := (f.after? step).getD f

/-- The forest behind some steps. -/
def grown (steps : List Step) : Forest := steps.foldl perform ⟨.empty, []⟩

structure Nested (f : Forest) : Prop where
  size : f.store.frames.size = f.scopes.length
  frame : ∀ {i : Nat} {s : Scope}, f.scopes[i]? = some s → s.frame = i
  around : ∀ s ∈ f.scopes, s.outer = [] ∨ ∃ t ∈ f.scopes, t.frame < s.frame ∧ s.outer = t.frames

namespace Nested

variable {f : Forest}

private theorem empty : Nested ⟨.empty, []⟩ := ⟨rfl, nofun, nofun⟩

private theorem setLocal (h : f.Nested) (frame : FrameId) (name : String) (v : Value) :
    Nested { f with store := f.store.setLocal frame name v } :=
  ⟨(Array.size_modify ..).trans h.size, h.frame, h.around⟩

private theorem frame_lt (h : f.Nested) {s : Scope} (member : s ∈ f.scopes) :
    s.frame < f.scopes.length := by
  obtain ⟨i, here⟩ := List.mem_iff_getElem?.mp member
  rw [h.frame here]
  exact (List.getElem?_eq_some_iff.mp here).1

private theorem create (h : f.Nested) {enclosing : Option Scope}
    (there : ∀ t ∈ enclosing, t ∈ f.scopes) :
    Nested ⟨(f.store.newScope ∅ enclosing).2, f.scopes ++ [(f.store.newScope ∅ enclosing).1]⟩ where
  size := by simp [Store.newScope, h.size]
  frame {i s} here := by
    rcases Nat.lt_or_ge i f.scopes.length with old | new
    · rw [List.getElem?_append_left old] at here
      exact h.frame here
    · rw [List.getElem?_append_right new, List.getElem?_singleton] at here
      obtain ⟨le, same⟩ := Option.ite_none_right_eq_some.mp here
      have last : i = f.scopes.length := Nat.le_antisymm (Nat.sub_eq_zero_iff_le.mp le) new
      rw [← Option.some.inj same, last, ← h.size]
      cases enclosing <;> rfl
  around s member := by
    rcases List.mem_append.mp member with old | new
    · exact (h.around s old).imp_right fun ⟨t, member, inner⟩ =>
        ⟨t, List.mem_append_left _ member, inner⟩
    · rw [List.mem_singleton.mp new]
      cases enclosing with
      | none => exact .inl rfl
      | some t =>
        have earlier : t.frame < f.store.frames.size := h.size ▸ h.frame_lt (there t rfl)
        exact .inr ⟨t, List.mem_append_left _ (there t rfl), earlier, rfl⟩

private theorem after? (h : f.Nested) {step : Step} {f' : Forest} (done : f.after? step = some f') :
    f'.Nested := by
  cases step with
  | create enclosing =>
    obtain rfl := Option.some.inj done
    refine h.create fun t found => ?_
    obtain ⟨i, _, here⟩ := Option.bind_eq_some_iff.mp found
    exact List.mem_of_getElem? here
  | define i name v =>
    obtain ⟨s, _, rfl⟩ := Option.map_eq_some_iff.mp done
    exact h.setLocal s.frame name v
  | assign i name v =>
    obtain ⟨s, _, done⟩ := Option.bind_eq_some_iff.mp done
    obtain ⟨m, assigned, rfl⟩ := Option.map_eq_some_iff.mp done
    obtain ⟨frame, _, rfl⟩ := Option.map_eq_some_iff.mp assigned
    exact h.setLocal frame name v
  | assignAt i distance name v =>
    obtain ⟨s, _, done⟩ := Option.bind_eq_some_iff.mp done
    obtain ⟨m, assigned, rfl⟩ := Option.map_eq_some_iff.mp done
    obtain ⟨frame, _, rfl⟩ := Option.map_eq_some_iff.mp assigned
    exact h.setLocal frame name v

private theorem perform (h : f.Nested) (step : Step) : (f.perform step).Nested := by
  unfold Forest.perform
  cases done : f.after? step with
  | none => exact h
  | some f' => exact h.after? done

private theorem grown (steps : List Step) : (Forest.grown steps).Nested := by
  have kept (f : Forest) (h : f.Nested) : (steps.foldl Forest.perform f).Nested := by
    induction steps generalizing f with
    | nil => exact h
    | cons step steps ih => exact ih _ (h.perform step)
  exact kept _ empty

private theorem frame_inj (h : f.Nested) {s t : Scope} (hs : s ∈ f.scopes) (ht : t ∈ f.scopes)
    (same : s.frame = t.frame) : s = t := by
  obtain ⟨i, s_here⟩ := List.mem_iff_getElem?.mp hs
  obtain ⟨j, t_here⟩ := List.mem_iff_getElem?.mp ht
  obtain rfl : i = j := (h.frame s_here).symm.trans (same.trans (h.frame t_here))
  exact Option.some.inj (s_here.symm.trans t_here)

private theorem ancestor? (h : f.Nested) {s t : Scope} (hs : s ∈ f.scopes) {d : Nat}
    (out : s.ancestor? d = some t) : t ∈ f.scopes ∧ t.frame + d ≤ s.frame := by
  induction d generalizing t with
  | zero =>
    obtain rfl := Option.some.inj out
    exact ⟨hs, Nat.le_refl _⟩
  | succ d ih =>
    rw [Scope.ancestor?_add] at out
    obtain ⟨u, inner, out⟩ := Option.bind_eq_some_iff.mp out
    obtain ⟨hu, le⟩ := ih inner
    rw [Scope.ancestor?_eq_some_iff] at out
    rcases h.around u hu with none | ⟨t', ht', lt, around⟩
    · simp [Scope.frames, none] at out
    · obtain rfl : t' = t := by
        have frames : t'.frames = t.frames := by simpa [Scope.frames, around] using out
        exact Scope.ext (List.cons.inj frames).1 (List.cons.inj frames).2
      have further : t'.frame + (d + 1) ≤ u.frame + d := by
        rw [← Nat.succ_add_eq_add_succ]
        exact Nat.add_le_add_right lt d
      exact ⟨ht', Nat.le_trans further le⟩

end Nested

/-- In another store all that is read from a forest by distances is the same, but where the distance
leads to some scope a name has a new value. -/
def WritesOnly (f : Forest) (t : Scope) (name : String) (v : Value) (m : Store) : Prop :=
  ∀ s ∈ f.scopes, ∀ d key, m.getAt? s d key =
    if s.ancestor? d = some t ∧ key = name then some v else f.store.getAt? s d key

private theorem Nested.setLocal_writesOnly {f : Forest} (h : f.Nested) {t : Scope}
    (ht : t ∈ f.scopes)
    (name : String) (v : Value) : f.WritesOnly t name v (f.store.setLocal t.frame name v) := by
  intro s hs d key
  have made : t.frame < f.store.frames.size := h.size ▸ h.frame_lt ht
  unfold Store.getAt?
  cases out : s.ancestor? d with
  | none => simp
  | some u =>
    have there := (h.ancestor? hs out).1
    have same : t.frame = u.frame ↔ u = t :=
      ⟨fun frame => (h.frame_inj ht there frame).symm, fun same => same ▸ rfl⟩
    simp only [Option.bind_some, Store.local?_setLocal, made, and_true, same, Option.some.injEq,
      eq_comm (a := name)]

end Forest

/-- Scopes behave as nested maps in every forest that is made by any steps.  Going outward from a
scope leads to scopes that were made earlier, so it comes to an end and never back.  A name is found
by searching if it has a value at some distance, and what is read or assigned then is what the least
such distance addresses.  A name can be assigned at a distance if it has a value there.  A write that
fails leaves everything as it is, and any other changes only what is read of the written name where
the distance leads to the written scope. -/
theorem scopes_are_nested_maps (steps : List Forest.Step) :
    let f := Forest.grown steps
    let m := f.store
    (∀ s ∈ f.scopes,
      (∀ d t, s.ancestor? d = some t → t ∈ f.scopes ∧ (t = s → d = 0)) ∧
      (∃ d ≤ f.scopes.length, s.ancestor? d = none) ∧
      (∀ a b, s.ancestor? (a + b) = (s.ancestor? a).bind (·.ancestor? b)) ∧
      (∀ name, (m.get? s name).isSome ↔ ∃ d, (m.getAt? s d name).isSome) ∧
      (∀ name v, (m.assign? s name v).isSome ↔ ∃ d, (m.getAt? s d name).isSome) ∧
      (∀ name d, (m.getAt? s d name).isSome → (∀ d' < d, m.getAt? s d' name = none) →
        m.get? s name = m.getAt? s d name ∧
        ∀ v, m.assign? s name v = m.assignAt? s d name v) ∧
      (∀ name d v, (m.assignAt? s d name v).isSome ↔ (m.getAt? s d name).isSome) ∧
      (∀ name v, f.WritesOnly s name v (m.define s name v)) ∧
      (∀ name d v m', m.assignAt? s d name v = some m' →
        ∃ t, s.ancestor? d = some t ∧ f.WritesOnly t name v m')) ∧
    ∀ step, f.after? step = none → f.perform step = f := by
  intro f m
  have nested : f.Nested := .grown steps
  have assign_eq {s : Scope} {name : String} {d : Nat} (held : (m.getAt? s d name).isSome)
      (first : ∀ d' < d, m.getAt? s d' name = none) (v : Value) :
      m.assign? s name v = m.assignAt? s d name v :=
    congrArg (Option.map (m.setLocal · name v)) (Store.search_eq_first held first).2
  refine ⟨fun s hs => ⟨?chain, ?ends, s.ancestor?_add, fun _ => Store.isSome_get?_iff, ?assign,
    fun name d held first => ⟨(Store.search_eq_first held first).1, assign_eq held first⟩,
    fun _ _ _ => Store.isSome_assignAt?_iff, fun name v => nested.setLocal_writesOnly hs name v,
    ?there⟩,
    fun step failed => ?failed⟩
  case chain =>
    intro d t out
    obtain ⟨there, le⟩ := nested.ancestor? hs out
    refine ⟨there, fun same => ?_⟩
    subst same
    exact Nat.le_zero.mp (Nat.le_of_add_le_add_left le)
  case ends =>
    refine ⟨s.frame + 1, nested.frame_lt hs, Option.eq_none_iff_forall_not_mem.mpr fun t out => ?_⟩
    have beyond := Nat.le_trans (Nat.le_add_left _ _) (nested.ancestor? hs out).2
    exact Nat.not_succ_le_self _ beyond
  case assign =>
    intro name v
    constructor
    · rw [Store.assign?, Option.isSome_map, Store.holder?, List.find?_isSome]
      rintro ⟨frame, member, held⟩
      rw [← Store.isSome_get?_iff, Store.get?, List.findSome?_isSome_iff]
      exact ⟨frame, member, held⟩
    · intro found
      obtain ⟨d, held, first⟩ := Store.exists_first found
      rw [assign_eq held first, Store.isSome_assignAt?_iff]
      exact held
  case there =>
    intro name d v m' assigned
    obtain ⟨t, out, rfl⟩ := Store.assignAt?_eq_some assigned
    exact ⟨t, out, nested.setLocal_writesOnly (nested.ancestor? hs out).1 name v⟩
  case failed =>
    rw [Forest.perform, failed]
    rfl

end LoxLang
