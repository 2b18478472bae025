import LoxLang.Proofs.ClosedSteps
import LoxLang.Proofs.InvariantSteps
import LoxLang.Proofs.SessionEvents

/-!
A session keeps an invariant that each single step keeps, if all trees that it reads are what the
invariant tells.
-/

set_option autoImplicit false
set_option relaxedAutoImplicit false

namespace LoxLang

/-- What a part of a session comes to that passes some events. -/
structure Invariant.Reaches (I : Invariant) (m : Machine) (evs : List Event) (m' : Machine) :
    Prop where
  path : ∃ own, I.path own m evs m'
  stored : I.Stored m'.store

section

variable {I : Invariant} {w : Surroundings} {m m₁ m' : Machine} {evs evs' : List Event}

private theorem Invariant.Leads.reaches {α : Type} {own : List String} {P : Store → α → Prop}
    {out : Except Interrupt α × Machine} (h : I.Leads own P m evs out) : I.Reaches m evs out.2 :=
  ⟨⟨own, h.path⟩, h.stored⟩

private theorem Invariant.Kept.nothing (K : I.Kept w) (stored : I.Stored m.store) :
    I.Reaches m [] m :=
  ⟨⟨[], K.still rfl rfl rfl rfl⟩, stored⟩

private theorem Invariant.Kept.joined (K : I.Kept w) (h : I.Reaches m evs m₁)
    (h' : I.Reaches m₁ evs' m') : I.Reaches m (evs ++ evs') m' := by
  obtain ⟨own, path⟩ := h.path
  obtain ⟨own', path'⟩ := h'.path
  refine ⟨⟨own ++ own', K.trans (K.mono path ?_) (K.mono path' ?_)⟩, h'.stored⟩
  · exact List.subset_append_left _ _
  · exact List.subset_append_right _ _

end

namespace Interpreter

private theorem execute_scope (config : Config) {i : Interpreter}
    (globals : i.machine.scope = .globals)
    (ss : List Stmt) : (i.execute config ss).2.machine.scope = .globals := by
  induction ss generalizing i with
  | nil => exact globals
  | cons s ss ih =>
    have kept := ((Restores.all (i.surroundings config) config.bound).stmt s i.machine).1
    rw [execute_cons]
    generalize (execStmt (i.surroundings config) config.bound s).outcome i.machine = out at kept
    obtain ⟨r, m⟩ := out
    have rest := ih (i := { i with machine := m }) (kept.trans globals)
    rcases r with (f | v) | _
    · rfl
    all_goals exact rest

private theorem execute_depth (config : Config) (i : Interpreter) (ss : List Stmt) :
    (i.execute config ss).2.machine.depth = i.machine.depth := by
  induction ss generalizing i with
  | nil => rfl
  | cons s ss ih =>
    have kept := ((Restores.all (i.surroundings config) config.bound).stmt s i.machine).2
    rw [execute_cons]
    generalize (execStmt (i.surroundings config) config.bound s).outcome i.machine = out at kept
    obtain ⟨r, m⟩ := out
    have rest := (ih { i with machine := m }).trans kept
    rcases r with (f | v) | _
    · exact kept
    all_goals exact rest

theorem execute_kept {I : Invariant} {config : Config} {i : Interpreter}
    (K : I.Kept (i.surroundings config)) (globals : i.machine.scope = .globals)
    (stored : I.Stored i.machine.store) {ss : List Stmt} (text : I.tree.stmts ss)
    (known : I.event (Event.ofProgram config i ss)) :
    I.Reaches i.machine (Event.ofProgram config i ss) (i.execute config ss).2.machine ∧
      ∀ f, (i.execute config ss).1 = .error f → I.failure f := by
  induction ss generalizing i with
  | nil => exact ⟨K.nothing stored, nofun⟩
  | cons s ss ih =>
    obtain ⟨here, behind⟩ := I.tree.cons text
    have first := (K.all config.bound).stmt i.machine here stored (K.left _ known)
    have kept := ((Restores.all (i.surroundings config) config.bound).stmt s i.machine).1
    have known' := K.right _ known
    unfold Event.ofProgram
    rw [execute_cons]
    rw [run_eq] at known' ⊢
    generalize (execStmt (i.surroundings config) config.bound s).outcome i.machine = out
      at first kept known'
    obtain ⟨r, m⟩ := out
    have scope : m.scope = .globals := kept.trans globals
    rcases r with (f | v) | _
    · have stays : I.Reaches m [] { m with scope := .globals } :=
        ⟨⟨[], K.still rfl scope.symm rfl rfl⟩, first.stored⟩
      refine ⟨K.joined first.reaches stays, fun f' same => ?_⟩
      obtain rfl := Except.error.inj same
      exact first.ends
    all_goals
      obtain ⟨rest, failed⟩ := ih (i := { i with machine := m }) K scope first.stored behind known'
      exact ⟨K.joined first.reaches rest, failed⟩

end Interpreter

namespace Session

def Reads (T : TreeProperty) (s : Session) (r : Request) : Prop :=
  (∀ program, s.executed? r = some program → T.stmts program) ∧
    ∀ e, s.evaluated? r = some e → T.expr e

theorem reads_any (s : Session) (r : Request) : s.Reads .any r :=
  ⟨fun _ _ => trivial, fun _ _ => trivial⟩

theorem perform_scope {s : Session} (globals : s.interpreter.machine.scope = .globals)
    (r : Request) : (s.perform r).2.interpreter.machine.scope = .globals := by
  rw [machine_perform]
  cases s.executed? r with
  | some program =>
    exact Interpreter.execute_scope r.config (i := (s.interpreter.resolve program).2) globals program
  | none =>
    cases s.evaluated? r with
    | none => exact globals
    | some e =>
      have kept := Restores.all (s.interpreter.surroundings r.config) r.config.bound
      exact (kept.expr e s.interpreter.machine).1.trans globals

theorem performAll_scope {s : Session} (globals : s.interpreter.machine.scope = .globals)
    (rs : List Request) : (s.performAll rs).interpreter.machine.scope = .globals := by
  induction rs generalizing s with
  | nil => exact globals
  | cons r rs ih => exact ih (perform_scope globals r)

private theorem perform_depth (s : Session) (r : Request) :
    (s.perform r).2.interpreter.machine.depth = s.interpreter.machine.depth := by
  rw [machine_perform]
  cases s.executed? r with
  | some program =>
    exact Interpreter.execute_depth r.config (s.interpreter.resolve program).2 program
  | none =>
    cases s.evaluated? r with
    | none => rfl
    | some e =>
      exact ((Restores.all (s.interpreter.surroundings r.config) r.config.bound).expr e
        s.interpreter.machine).2

theorem performAll_depth (s : Session) (rs : List Request) :
    (s.performAll rs).interpreter.machine.depth = s.interpreter.machine.depth := by
  induction rs generalizing s with
  | nil => rfl
  | cons r rs ih => exact (ih (s.perform r).2).trans (perform_depth s r)

variable {I : Invariant}

theorem perform_kept {s : Session} {r : Request} (K : ∀ D, I.Kept ⟨r.config, D⟩)
    (globals : s.interpreter.machine.scope = .globals)
    (stored : I.Stored s.interpreter.machine.store) (text : s.Reads I.tree r)
    (known : I.event (s.events r)) :
    I.Reaches s.interpreter.machine (s.events r) (s.perform r).2.interpreter.machine := by
  obtain ⟨programs, expressions⟩ := text
  rw [machine_perform]
  unfold events at known ⊢
  cases executed : s.executed? r with
  | some program =>
    rw [executed] at known
    exact (Interpreter.execute_kept (i := (s.interpreter.resolve program).2) (K _) globals stored
      (programs program executed) known).1
  | none =>
    rw [executed] at known
    cases evaluated : s.evaluated? r with
    | none => exact (K s.interpreter.distances).nothing stored
    | some e =>
      rw [evaluated] at known
      have run := ((K s.interpreter.distances).all r.config.bound).expr []
        s.interpreter.machine (expressions e evaluated) stored known
      exact run.reaches

/-- Operations in a row keep an invariant. -/
theorem performAll_kept (K : ∀ w, I.Kept w) {s : Session}
    (globals : s.interpreter.machine.scope = .globals)
    (stored : I.Stored s.interpreter.machine.store) (text : ∀ s r, Reads I.tree s r)
    {rs : List Request} (known : I.event (s.eventsAll rs)) :
    I.Reaches s.interpreter.machine (s.eventsAll rs) (s.performAll rs).interpreter.machine := by
  have here := K ⟨⟨none, .working, fun _ => 0, 0⟩, ∅⟩
  induction rs generalizing s with
  | nil => exact here.nothing stored
  | cons r rs ih =>
    have first := perform_kept (fun _ => K _) globals stored (text s r) (here.left _ known)
    exact here.joined first (ih (perform_scope globals r) first.stored (here.right _ known))

end Session

end LoxLang
