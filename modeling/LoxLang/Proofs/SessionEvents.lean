import LoxLang.Proofs.Events
import LoxLang.Proofs.SessionRuns

/-!
The events of a session.  An operation executes a program or evaluates an expression, or it does
neither; its events are those of what it executes or evaluates.
-/

set_option autoImplicit false
set_option relaxedAutoImplicit false

namespace LoxLang

/-- The events of executing statements as a program. -/
def Event.ofProgram (config : Config) (i : Interpreter) : List Stmt → List Event
  | [] => []
  | s :: ss =>
    Event.ofStmt (i.surroundings config) config.bound s i.machine ++
      match i.run (execStmt (i.surroundings config) config.bound s) with
      | (.ok (), i) | (.error (.returned _), i) => ofProgram config i ss
      | (.error (.failure _), _) => []

namespace Session

/-- The program that an operation executes, if any: one that can be read from its text and breaks
no rule of binding. -/
def executed? (s : Session) (r : Request) : Option (List Stmt) :=
  match r.operation with
  | .run source =>
    match (readProgram s.labels source).result with
    | .ok program => if (s.interpreter.resolve program).1 = [] then some program else none
    | .error _ => none
  | .evaluate _ | .resetErrors => none

/-- The expression that an operation evaluates, if any. -/
def evaluated? (s : Session) (r : Request) : Option Expr :=
  match r.operation with
  | .evaluate source => (readExpression s.labels source).result.toOption
  | .run _ | .resetErrors => none

/-- The events of an operation. -/
def events (s : Session) (r : Request) : List Event :=
  match s.executed? r, s.evaluated? r with
  | some program, _ => Event.ofProgram r.config (s.interpreter.resolve program).2 program
  | none, some e =>
    Event.ofExpr (s.interpreter.surroundings r.config) r.config.bound e s.interpreter.machine
  | none, none => []

def eventsAll (s : Session) : List Request → List Event
  | [] => []
  | r :: rs => s.events r ++ (s.perform r).2.eventsAll rs

def executed (s : Session) : List Request → List (List Stmt)
  | [] => []
  | r :: rs => (s.executed? r).toList ++ (s.perform r).2.executed rs

theorem machine_perform (s : Session) (r : Request) : (s.perform r).2.interpreter.machine =
    match s.executed? r, s.evaluated? r with
    | some program, _ => ((s.interpreter.resolve program).2.execute r.config program).2.machine
    | none, some e => (EvalM.outcome
        (evalExpr (s.interpreter.surroundings r.config) r.config.bound e) s.interpreter.machine).2
    | none, none => s.interpreter.machine := by
  obtain ⟨config, operation⟩ := r
  cases operation with
  | resetErrors => rfl
  | evaluate source =>
    cases read : (readExpression s.labels source).result with
    | error e =>
      simp only [executed?, evaluated?, read, Except.toOption, perform,
        evaluate_unread config s source read]
    | ok e =>
      simp only [executed?, evaluated?, read, Except.toOption, perform,
        evaluate_read config s source read]
      rfl
  | run source =>
    cases read : (readProgram s.labels source).result with
    | error errors =>
      simp only [executed?, evaluated?, read, perform, run_unread config s source read]
    | ok program =>
      by_cases bound : (s.interpreter.resolve program).1 = []
      · simp only [executed?, read, bound, if_true, perform,
          run_executed config s source read bound]
      · simp only [executed?, evaluated?, read, bound, if_false, perform,
          run_unbound config s source read bound]
        rfl

/-- An operation that executes a program runs a text from which the program is read, and no rule of
binding is broken. -/
theorem executed?_eq {s : Session} {r : Request} {program : List Stmt}
    (h : s.executed? r = some program) :
    ∃ source, r.operation = .run source ∧
      (readProgram s.labels source).result = .ok program ∧
      (s.interpreter.resolve program).1 = [] := by
  unfold executed? at h
  split at h
  · rename_i source operation
    split at h
    · rename_i read
      split at h
      · rename_i bound
        obtain rfl := Option.some.inj h
        exact ⟨source, operation, read, bound⟩
      · cases h
    · cases h
  · cases h
  · cases h

theorem evaluated?_eq {s : Session} {r : Request} {e : Expr} (h : s.evaluated? r = some e) :
    ∃ source, r.operation = .evaluate source ∧ (readExpression s.labels source).result = .ok e := by
  unfold evaluated? at h
  split at h
  · rename_i source operation
    cases read : (readExpression s.labels source).result with
    | error _ => simp [read, Except.toOption] at h
    | ok e' =>
      obtain rfl : e' = e := by simpa [read, Except.toOption] using h
      exact ⟨source, operation, read⟩
  · cases h
  · cases h

end Session

end LoxLang
