import LoxLang.Proofs.ReturnSignals
import LoxLang.Proofs.ScopedExecution

/-!
Statements one after the other, each with the whole bound on nested steps.  That is how a program is
executed; in a block, every statement leaves one step less to those behind it.  So with bounds that
are far enough apart, either of the two goes on where the other one is cut short.
-/

set_option autoImplicit false
set_option relaxedAutoImplicit false

namespace LoxLang

open EvalM

def execEach (w : Surroundings) (bound : Nat) : List Stmt → EvalM Unit
  | [] => pure ()
  | s :: ss => do
    execStmt w bound s
    execEach w bound ss

def execEachInBlock (w : Surroundings) (bound : Nat) (ss : List Stmt) : EvalM Unit := do
  let present := (← get).scope
  let scope ← onStore (·.newScope ∅ (some present))
  inScope scope (execEach w bound ss)

theorem execEach_within (w : Surroundings) (limit bound : Nat) (ss : List Stmt) :
    execEach (w.within limit) bound ss = execEach w bound ss := by
  induction ss with
  | nil => rfl
  | cons s ss ih => rw [execEach, execEach, execStmt_within, ih]

/-! Bounds. -/

section

variable (w : Surroundings) {bound bound' : Nat}

private theorem execStmts_goesOn (le : bound ≤ bound') (ss : List Stmt) :
    GoesOn (execStmts w bound ss) (execEach w bound' ss) := by
  induction ss generalizing bound with
  | nil =>
    cases bound with
    | zero =>
      rw [execStmts]
      exact .exhausted fun _ => List.prefix_rfl
    | succ bound =>
      rw [execStmts]
      exact .pure ()
  | cons s ss ih =>
    rw [execEach]
    cases bound with
    | zero =>
      have rest := (ih (Nat.zero_le bound')).prints
      rw [execStmts]
      refine .exhausted fun m => ?_
      have first := ((StepsFurther.refl w bound').stmt s).prints m
      rw [outcome_bind]
      rcases outcome : (execStmt w bound' s).outcome m with ⟨_ | _, m'⟩ <;> rw [outcome] at first
      · exact first
      · exact first.trans (rest m')
    | succ bound =>
      rw [execStmts]
      exact ((StepsFurther.of_le w (Nat.le_of_succ_le le)).stmt s).bind fun _ =>
        ih (Nat.le_of_succ_le le)

private theorem execEach_goesOn {ss : List Stmt} (le : bound + ss.length + 1 ≤ bound') :
    GoesOn (execEach w bound ss) (execStmts w bound' ss) := by
  induction ss generalizing bound' with
  | nil =>
    obtain ⟨bound', rfl⟩ := Nat.exists_eq_add_one_of_ne_zero (Nat.ne_of_gt (Nat.zero_lt_of_lt le))
    rw [execStmts]
    exact .pure ()
  | cons s ss ih =>
    obtain ⟨bound', rfl⟩ := Nat.exists_eq_add_one_of_ne_zero (Nat.ne_of_gt (Nat.zero_lt_of_lt le))
    rw [List.length_cons] at le
    rw [execEach, execStmts]
    exact ((StepsFurther.of_le w (by omega)).stmt s).bind fun _ => ih (by omega)

theorem block_goesOn (le : bound ≤ bound') (ss : List Stmt) :
    GoesOn (execStmt w bound (.block ss)) (execEachInBlock w bound' ss) := by
  have inside (bound : Nat) (le : bound ≤ bound') :=
    GoesOn.get_bind fun m => (GoesOn.onStore (·.newScope ∅ (some m.scope))).bind fun scope =>
      GoesOn.inScope scope (execStmts_goesOn w le ss)
  cases bound with
  | zero =>
    rw [execStmt]
    exact .exhausted (inside 0 le).prints
  | succ bound =>
    rw [execStmt]
    exact inside bound (Nat.le_of_succ_le le)

theorem execEachInBlock_goesOn {ss : List Stmt} (le : bound + ss.length + 2 ≤ bound') :
    GoesOn (execEachInBlock w bound ss) (execStmt w bound' (.block ss)) := by
  obtain ⟨bound', rfl⟩ := Nat.exists_eq_add_one_of_ne_zero (Nat.ne_of_gt (Nat.zero_lt_of_lt le))
  rw [execStmt]
  exact GoesOn.get_bind fun m => (GoesOn.onStore _).bind fun scope =>
    GoesOn.inScope scope (execEach_goesOn w (Nat.le_of_succ_le_succ le))

end

/-- A program without faults is executed statement by statement, each with the whole bound. -/
theorem Interpreter.execute_each (config : Config) (i : Interpreter) {ss : List Stmt}
    {A : Expr → StaticStack → Prop} {missing : Option String}
    (accepted : Accepted A missing (Walk.program ss)) :
    let out := (execEach (i.surroundings config) config.bound ss).outcome i.machine
    (execute config i ss).1.mapError .failure = out.1 ∧
      (execute config i ss).2.machine.lines = out.2.lines := by
  induction ss generalizing i with
  | nil => exact ⟨rfl, rfl⟩
  | cons s ss ih =>
    unfold Walk.program at ih accepted
    rw [Walk.stmts, Walk.after_globals] at accepted
    have stays := Unreturned.topLevel (fun _ => accepted.left.not_fault) (i.surroundings config)
      config.bound i.machine
    dsimp only
    rw [execute_cons, execEach, outcome_bind]
    generalize (execStmt (i.surroundings config) config.bound s).outcome i.machine = out at stays ⊢
    rcases out with ⟨(f | v) | v, m⟩
    · exact ⟨rfl, rfl⟩
    · exact absurd rfl (stays v)
    · exact ih { i with machine := m } accepted.right

end LoxLang
