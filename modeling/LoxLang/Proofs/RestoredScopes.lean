import LoxLang.Proofs.CallCounts
import LoxLang.Proofs.CutSessions

/-!
The scope of an execution and its count of active calls.  Both are behind a tree or a callable what
they were before it, whether it gives a result, fails or ends with a `return`.  So a session is at
the global scope with no call active between two operations, and going back to the global scope
behind a failure leaves an interpreter as it is.
-/

set_option autoImplicit false
set_option relaxedAutoImplicit false

namespace LoxLang

namespace Interpreter

/-- Executes statements one after the other up to the first failure, and stays where that leads
to. -/
def executeInPlace (config : Config) (i : Interpreter) :
    List Stmt → Except Failure Unit × Interpreter
  | [] => (.ok (), i)
  | s :: ss =>
    match i.run (execStmt (i.surroundings config) config.bound s) with
    | (.ok (), i) | (.error (.returned _), i) => executeInPlace config i ss
    | (.error (.failure f), i) => (.error f, i)

private theorem execute_inPlace (config : Config) {i : Interpreter}
    (scope : i.machine.scope = .globals)
    (ss : List Stmt) : i.execute config ss = i.executeInPlace config ss := by
  induction ss generalizing i with
  | nil => rfl
  | cons s ss ih =>
    have kept := ((Restores.all (i.surroundings config) config.bound).stmt s i.machine).1
    rw [execute_cons, executeInPlace, run_eq]
    generalize (execStmt (i.surroundings config) config.bound s).outcome i.machine = ended
      at kept ⊢
    have stays : ended.2.scope = .globals := kept.trans scope
    rcases ended with ⟨(f | v) | v, m⟩
    · exact congrArg (Prod.mk _) (atGlobals_eq stays)
    · exact ih stays
    · exact ih stays

end Interpreter

/-- Every tree and every callable, at any bound on nested steps, leaves the scope and the count of
active calls as it finds them, however it ends.  Under a limit the count goes by one up where a call
begins and by one down where it ends, and it is never above the limit.  So between two operations of
a session the scope is the global one and no call is active, and at the global scope it makes no
difference that a failure leads back there. -/
theorem scope_and_count_restored :
    (∀ w bound, AllSteps w Restores bound) ∧
    (∀ (w : Surroundings) limit bound, CountedSteps (w.limited limit) limit bound) ∧
    (∀ (i : Interpreter) config ss,
      i.atGlobals.execute config ss = i.atGlobals.executeInPlace config ss) ∧
    ∀ history : List Request, let s := Session.initial.performAll history
      s.interpreter.machine.scope = .globals ∧ s.interpreter.machine.depth = 0 ∧
      s.interpreter.atGlobals = s.interpreter ∧
      ∀ config program, let i := (s.interpreter.resolve program).2
        i.execute config program = i.executeInPlace config program := by
  refine ⟨Restores.all, CountedSteps.all,
    fun i config ss => i.atGlobals.execute_inPlace config rfl ss,
    fun history => ?_⟩
  have scope : (Session.initial.performAll history).interpreter.machine.scope = .globals :=
    Session.performAll_scope rfl history
  exact ⟨scope, Session.initial.performAll_depth history, Interpreter.atGlobals_eq scope,
    fun config program => Interpreter.execute_inPlace config
      (i := (Interpreter.resolve _ program).2) scope program⟩

end LoxLang
