import Mathlib.Data.List.DropRight
import LoxLang.Program
import LoxLang.Proofs.ClosedSteps
import LoxLang.Proofs.EvaluatedExpressions

/-!
The kind of an error tells the phase in which it was found.  An operation answers a static error
just when its text is refused, and then nothing of the text is executed; an execution fails with
faults of its own kind only.  So the two flags of a session tell which kinds of errors were answered
since they were last cleared, and the status of the program which kind it ended with.
-/

set_option autoImplicit false
set_option relaxedAutoImplicit false

namespace LoxLang

/-- Whether an error of a session is of a kind that is found before execution. -/
def SessionError.isStatic (e : SessionError) : Bool := e.diagnostic.isStatic

def SessionError.failed? {α : Type} : Except Failure α → Option SessionError
  | .ok _ => none
  | .error f => some (.failed f)

namespace Answer

/-- The error that is answered, if any. -/
def error? : Answer → Option SessionError
  | .ran (.error e) | .evaluated (.error e) => some e
  | .ran (.ok _) | .evaluated (.ok _) | .reset => none

theorem error?_ran (r : Except Failure Unit) :
    (Answer.ran (r.mapError .failed)).error? = SessionError.failed? r := by
  cases r <;> rfl

theorem error?_evaluated (r : Except Failure Value) :
    (Answer.evaluated (r.mapError .failed)).error? = SessionError.failed? r := by
  cases r <;> rfl

def isStaticError (a : Answer) : Bool := a.error?.any SessionError.isStatic

def isOtherError (a : Answer) : Bool := a.error?.any fun e => !e.isStatic

def isReset : Answer → Bool
  | .reset => true
  | .ran _ | .evaluated _ => false

end Answer

namespace Session

/-- An operation whose text cannot be scanned, parsed or, as a program, resolved. -/
def Refuses (s : Session) : Operation → Prop
  | .run source =>
    let scanned := scan source
    let parsed := (parseProgram s.labels scanned.tokens scanned.lastLine).result
    scanned.faults ≠ [] ∨ (∃ errors, parsed = .error errors) ∨
      ∃ program, parsed = .ok program ∧ (resolve s.interpreter.distances program).errors ≠ []
  | .evaluate source =>
    let scanned := scan source
    scanned.faults ≠ [] ∨
      ∃ e, (parseExpression s.labels scanned.tokens scanned.lastLine).result = .error e
  | .resetErrors => False

/-- What operations answer, in order. -/
def answers (s : Session) (rs : List Request) : List Answer := (s.observe rs).map Observation.answer

/-- What was answered since the flags were last cleared, or from the start. -/
def sinceReset (answers : List Answer) : List Answer := answers.rtakeWhile fun a => !a.isReset

end Session

/-- What an execution can fail with: a fault of its own, or the words of a broken sink. -/
def Failure.Possible (config : Config) : Failure → Prop
  | .fault _ | .exhausted => True
  | .sink text => config.sink = .broken text

def FailsAsPossible (config : Config) {α : Type} (act : EvalM α) : Prop :=
  ∀ m f, (act.outcome m).1 = .error (.failure f) → f.Possible config

private theorem FailsAsPossible.closed (config : Config) : Closed config (FailsAsPossible config) :=
  FailsOnly.closed trivial (fun _ _ => trivial) fun _ sink => sink

private theorem Failure.isStatic_eq_false (f : Failure) : f.diagnostic.isStatic = false := by
  cases f <;> rfl

private theorem SessionError.failed?_eq_some {α : Type} {r : Except Failure α} {f : Failure}
    (failed : SessionError.failed? r = some (.failed f)) : r = .error f := by
  cases r with
  | ok a => cases failed
  | error f' =>
    cases failed
    rfl

private theorem SessionError.isStatic_eq_true {e : SessionError} :
    e.isStatic = true ↔ ∀ f, e ≠ .failed f := by
  cases e with
  | failed f => simp [isStatic, diagnostic, f.isStatic_eq_false]
  | rejected errors => simp [isStatic, diagnostic, Diagnostic.isStatic]
  | malformed e => simp [isStatic, diagnostic, SyntaxError.diagnostic, Diagnostic.isStatic]

namespace Interpreter

private theorem valueOf_error {r : Except Interrupt Value} {f : Failure} :
    valueOf r = .error f ↔ r = .error (.failure f) := by
  rcases r with (_ | _) | _ <;> simp [valueOf]

variable {config : Config} {i : Interpreter} {f : Failure}

private theorem execute_fails {program : List Stmt}
    (failed : (i.execute config program).1 = .error f) :
    f.Possible config := by
  induction program generalizing i with
  | nil => cases failed
  | cons s ss ih =>
    have step := ((FailsAsPossible.closed config).all (w := i.surroundings config)
      config.bound).stmt s i.machine
    rw [execute_cons] at failed
    generalize (execStmt (i.surroundings config) config.bound s).outcome i.machine = out
      at step failed
    rcases out with ⟨(f' | v) | v, m⟩
    · obtain rfl : f' = f := Except.error.inj failed
      exact step f' rfl
    · exact ih failed
    · exact ih failed

private theorem evaluate_fails {e : Expr} (failed : (i.evaluate config e).1 = .error f) :
    f.Possible config :=
  ((FailsAsPossible.closed config).all (w := i.surroundings config) config.bound).expr e i.machine f
    (valueOf_error.mp failed)

private theorem call_fails {c : Callable} {args : List Value}
    (failed : (i.call config c args).1 = .error f) : f.Possible config :=
  ((FailsAsPossible.closed config).all (w := i.surroundings config) config.bound).apply c args
    i.machine f (valueOf_error.mp failed)

end Interpreter

namespace Session

section

variable (s : Session) (source : String)

variable {s source} in
theorem perform_run {config : Config} {result : Except SessionError Unit × Session}
    (ran : s.run config source = result) :
    s.perform ⟨config, .run source⟩ = (.ran result.1, result.2) := by
  rw [← ran]
  rfl

variable {s source} in
theorem perform_evaluate {config : Config} {result : Except SessionError Value × Session}
    (evaluated : s.evaluate config source = result) :
    s.perform ⟨config, .evaluate source⟩ = (.evaluated result.1, result.2) := by
  rw [← evaluated]
  rfl

private theorem readProgram_error_iff :
    (∃ errors, (readProgram s.labels source).result = .error errors) ↔
      (scan source).faults ≠ [] ∨ ∃ errors,
        (parseProgram s.labels (scan source).tokens (scan source).lastLine).result =
          .error errors := by
  unfold readProgram
  cases faults : (scan source).faults <;>
    cases parsed : (parseProgram s.labels (scan source).tokens (scan source).lastLine).result <;>
      simp [faults, parsed]

private theorem readExpression_error_iff :
    (∃ e, (readExpression s.labels source).result = .error e) ↔ s.Refuses (.evaluate source) := by
  unfold readExpression Refuses
  cases faults : (scan source).faults <;>
    cases parsed : (parseExpression s.labels (scan source).tokens (scan source).lastLine).result <;>
      simp [faults, parsed, Except.mapError]

private theorem readExpression_isStatic {e : SessionError}
    (read : (readExpression s.labels source).result = .error e) : e.isStatic = true := by
  unfold readExpression at read
  cases faults : (scan source).faults with
  | nil =>
    cases parsed : (parseExpression s.labels (scan source).tokens (scan source).lastLine).result with
    | ok e' => simp [faults, parsed, Except.mapError] at read
    | error e' =>
      simp only [faults, parsed, Except.mapError, Except.error.injEq] at read
      subst read
      rfl
  | cons e' es =>
    simp only [faults, Except.error.injEq] at read
    subst read
    rfl

private theorem refuses_run_iff :
    s.Refuses (.run source) ↔ (∃ errors, (readProgram s.labels source).result = .error errors) ∨
      ∃ program, (readProgram s.labels source).result = .ok program ∧
        (s.interpreter.resolve program).1 ≠ [] := by
  have error := s.readProgram_error_iff source
  constructor
  · rintro (faults | parsed | ⟨program, parsed, unbound⟩)
    · exact .inl (error.mpr (.inl faults))
    · exact .inl (error.mpr (.inr parsed))
    · cases read : (readProgram s.labels source).result with
      | error errors => exact .inl ⟨errors, rfl⟩
      | ok program' =>
        have same := (readProgram_ok read).2.symm.trans parsed
        obtain rfl := Except.ok.inj same
        exact .inr ⟨program', rfl, unbound⟩
  · rintro (unread | ⟨program, read, unbound⟩)
    · rcases error.mp unread with faults | parsed
      · exact .inl faults
      · exact .inr (.inl parsed)
    · exact .inr (.inr ⟨program, (readProgram_ok read).2, unbound⟩)

end

structure Refused (s : Session) (operation : Operation) : Prop where
  static : ∀ config, (s.perform ⟨config, operation⟩).1.isStaticError = true
  machine : ∀ config, (s.perform ⟨config, operation⟩).2.interpreter.machine = s.interpreter.machine
  config : ∀ config config', s.perform ⟨config, operation⟩ = s.perform ⟨config', operation⟩
  hadError : ∀ config, (s.perform ⟨config, operation⟩).2.hadError = true
  hadRuntimeError : ∀ config,
    (s.perform ⟨config, operation⟩).2.hadRuntimeError = s.hadRuntimeError

structure Executes (s : Session) (operation : Operation) (config : Config) : Prop where
  failed : ∀ e, (s.perform ⟨config, operation⟩).1.error? = some e →
    ∃ f, e = .failed f ∧ f.Possible config
  hadError : (s.perform ⟨config, operation⟩).2.hadError = s.hadError
  hadRuntimeError : (s.perform ⟨config, operation⟩).2.hadRuntimeError =
    (s.hadRuntimeError || (s.perform ⟨config, operation⟩).1.error?.isSome)

private theorem Executes.of_result {α : Type} {s s' : Session} {operation : Operation}
    {config : Config} {answer : Answer} {result : Except Failure α}
    (performed : s.perform ⟨config, operation⟩ = (answer, s'))
    (answered : answer.error? = SessionError.failed? result)
    (possible : ∀ f, result = .error f → f.Possible config) (flag : s'.hadError = s.hadError)
    (flag' : s'.hadRuntimeError = (s.hadRuntimeError || !result.isOk)) :
    s.Executes operation config where
  failed e error := by
    rw [performed, answered] at error
    cases result with
    | ok a => cases error
    | error f => exact ⟨f, (Option.some.inj error).symm, possible f rfl⟩
  hadError := by rw [performed, flag]
  hadRuntimeError := by
    rw [performed, flag', answered]
    cases result <;> rfl

/-- What is refused is answered, and left, as it should be. -/
theorem Refuses.refused {s : Session} {operation : Operation} (h : s.Refuses operation) :
    s.Refused operation := by
  have of_eq : ∀ {answer : Answer} {s' : Session},
      (∀ config, s.perform ⟨config, operation⟩ = (answer, s')) → answer.isStaticError = true →
      s'.interpreter.machine = s.interpreter.machine → s'.hadError = true →
      s'.hadRuntimeError = s.hadRuntimeError → s.Refused operation := by
    intro answer s' performed static machine flag flag'
    exact ⟨fun c => (performed c).symm ▸ static, fun c => (performed c).symm ▸ machine,
      fun c c' => (performed c).trans (performed c').symm, fun c => (performed c).symm ▸ flag,
      fun c => (performed c).symm ▸ flag'⟩
  cases operation with
  | resetErrors => exact h.elim
  | run source =>
    rcases (s.refuses_run_iff source).mp h with ⟨errors, read⟩ | ⟨program, read, unbound⟩
    · exact of_eq (fun config => perform_run (run_unread config s source read)) rfl rfl rfl rfl
    · exact of_eq (fun config => perform_run (run_unbound config s source read unbound))
        rfl rfl rfl rfl
  | evaluate source =>
    obtain ⟨e, read⟩ := (s.readExpression_error_iff source).mpr h
    have static : (Answer.evaluated (.error e)).isStaticError = true :=
      s.readExpression_isStatic source read
    exact of_eq (fun config => perform_evaluate (evaluate_unread config s source read))
      static rfl rfl rfl

theorem not_refuses_run {s : Session} {source : String} (h : ¬ s.Refuses (.run source)) :
    ∃ program, (readProgram s.labels source).result = .ok program ∧
      (s.interpreter.resolve program).1 = [] := by
  rw [refuses_run_iff] at h
  cases read : (readProgram s.labels source).result with
  | error errors => exact absurd (.inl ⟨errors, read⟩) h
  | ok program =>
    refine ⟨program, rfl, ?_⟩
    by_contra unbound
    exact h (.inr ⟨program, read, unbound⟩)

theorem not_refuses_evaluate {s : Session} {source : String}
    (h : ¬ s.Refuses (.evaluate source)) : ∃ e, (readExpression s.labels source).result = .ok e := by
  cases read : (readExpression s.labels source).result with
  | error e => exact absurd ((s.readExpression_error_iff source).mp ⟨e, read⟩) h
  | ok e => exact ⟨e, rfl⟩

private theorem executes_of_not_refuses {s : Session} {operation : Operation}
    (h : ¬ s.Refuses operation)
    (other : operation ≠ .resetErrors) (config : Config) : s.Executes operation config := by
  cases operation with
  | resetErrors => exact absurd rfl other
  | run source =>
    obtain ⟨program, read, bound⟩ := not_refuses_run h
    exact .of_result (perform_run (run_executed config s source read bound))
      (Answer.error?_ran _) (fun _ => Interpreter.execute_fails) rfl rfl
  | evaluate source =>
    obtain ⟨e, read⟩ := not_refuses_evaluate h
    exact .of_result (perform_evaluate (evaluate_read config s source read))
      (Answer.error?_evaluated _) (fun _ => Interpreter.evaluate_fails) rfl rfl

private theorem perform_flags (s : Session) (r : Request)
    (other : (s.perform r).1.isReset = false) :
    (s.perform r).2.hadError = (s.hadError || (s.perform r).1.isStaticError) ∧
      (s.perform r).2.hadRuntimeError = (s.hadRuntimeError || (s.perform r).1.isOtherError) := by
  obtain ⟨config, operation⟩ := r
  by_cases refuses : s.Refuses operation
  · have refused := refuses.refused
    have static := refused.static config
    have only : (s.perform ⟨config, operation⟩).1.isOtherError = false := by
      unfold Answer.isStaticError at static
      unfold Answer.isOtherError
      cases answered : (s.perform ⟨config, operation⟩).1.error? with
      | none => rfl
      | some e =>
        rw [answered] at static
        exact congrArg Bool.not static
    rw [refused.hadError, refused.hadRuntimeError, static, only]
    simp
  · have run : operation ≠ .resetErrors := by
      rintro rfl
      cases other
    have executes := executes_of_not_refuses refuses run config
    rw [executes.hadError, executes.hadRuntimeError, Answer.isStaticError, Answer.isOtherError]
    cases answered : (s.perform ⟨config, operation⟩).1.error? with
    | none => simp
    | some e =>
      obtain ⟨f, rfl, _⟩ := executes.failed e answered
      have kind : (SessionError.failed f).isStatic = false := f.isStatic_eq_false
      simp [kind]

private theorem perform_reset {s : Session} {r : Request} (reset : (s.perform r).1.isReset = true) :
    (s.perform r).2.hadError = false ∧ (s.perform r).2.hadRuntimeError = false := by
  obtain ⟨config, operation⟩ := r
  cases operation with
  | run source => cases reset
  | evaluate source => cases reset
  | resetErrors => exact ⟨rfl, rfl⟩

private theorem answers_concat (s : Session) (rs : List Request) (r : Request) :
    s.answers (rs ++ [r]) = s.answers rs ++ [((s.performAll rs).perform r).1] := by
  induction rs generalizing s with
  | nil => rfl
  | cons first rs ih => exact congrArg (_ :: ·) (ih (s.perform first).2)

private theorem flags_tell {s : Session} (down : s.hadError = false)
    (down' : s.hadRuntimeError = false) (rs : List Request) :
    (s.performAll rs).hadError = (sinceReset (s.answers rs)).any Answer.isStaticError ∧
      (s.performAll rs).hadRuntimeError = (sinceReset (s.answers rs)).any Answer.isOtherError := by
  induction rs using List.reverseRecOn with
  | nil => exact ⟨down, down'⟩
  | append_singleton rs r ih =>
    rw [performAll_append, answers_concat, sinceReset]
    cases reset : ((s.performAll rs).perform r).1.isReset with
    | true =>
      rw [List.rtakeWhile_concat_neg _ _ _ (by simp [reset])]
      exact perform_reset reset
    | false =>
      obtain ⟨flag, flag'⟩ := (s.performAll rs).perform_flags r reset
      rw [List.rtakeWhile_concat_pos _ _ _ (by simp [reset]), List.any_append, List.any_append]
      simp only [performAll, flag, flag', ih.1, ih.2, sinceReset, List.any_cons, List.any_nil,
        Bool.or_false, and_self]

private theorem isStaticError_iff_refuses (s : Session) (config : Config) (operation : Operation) :
    (s.perform ⟨config, operation⟩).1.isStaticError = true ↔ s.Refuses operation := by
  refine ⟨fun static => ?_, fun refuses => refuses.refused.static config⟩
  by_contra runs
  cases operation with
  | resetErrors => cases static
  | run source | evaluate source =>
    obtain ⟨e, answered, kind⟩ := Option.any_eq_true _ _ |>.mp static
    obtain ⟨f, rfl, _⟩ := (executes_of_not_refuses runs (by simp) config).failed e answered
    exact SessionError.isStatic_eq_true.mp kind f rfl

theorem Refuses.nothing {s : Session} {operation : Operation} (h : s.Refuses operation)
    (config : Config) :
    s.executed? ⟨config, operation⟩ = none ∧ s.evaluated? ⟨config, operation⟩ = none := by
  cases operation with
  | resetErrors => exact h.elim
  | run source =>
    rcases (s.refuses_run_iff source).mp h with ⟨errors, read⟩ | ⟨program, read, unbound⟩
    · simp only [executed?, evaluated?, read, and_self]
    · simp only [executed?, evaluated?, read, unbound, if_false, and_self]
  | evaluate source =>
    obtain ⟨e, read⟩ := (s.readExpression_error_iff source).mpr h
    simp only [executed?, evaluated?, read, Except.toOption, and_self]

private theorem isOtherError_iff (s : Session) (config : Config) (operation : Operation) :
    (s.perform ⟨config, operation⟩).1.isOtherError = true ↔
      ∃ f, (s.perform ⟨config, operation⟩).1.error? = some (.failed f) := by
  constructor
  · intro other
    obtain ⟨e, answered, kind⟩ := Option.any_eq_true _ _ |>.mp other
    cases e with
    | failed f => exact ⟨f, answered⟩
    | rejected errors => cases kind
    | malformed e => cases kind
  · rintro ⟨f, answered⟩
    rw [Answer.isOtherError, answered]
    exact congrArg Bool.not f.isStatic_eq_false

/-- An operation fails only as an invariant tells that its execution keeps. -/
theorem perform_failure {I : Invariant} {s : Session} {r : Request}
    (K : ∀ D, I.Kept ⟨r.config, D⟩) (globals : s.interpreter.machine.scope = .globals)
    (stored : I.Stored s.interpreter.machine.store) (text : s.Reads I.tree r)
    (known : I.event (s.events r)) {f : Failure}
    (failed : (s.perform r).1.error? = some (.failed f)) : I.failure f := by
  obtain ⟨config, operation⟩ := r
  obtain ⟨programs, expressions⟩ := text
  unfold events at known
  by_cases refuses : s.Refuses operation
  · have static := refuses.refused.static config
    rw [Answer.isStaticError, failed] at static
    exact absurd rfl (SessionError.isStatic_eq_true.mp static f)
  · cases operation with
    | resetErrors => cases failed
    | run source =>
      obtain ⟨program, read, bound⟩ := not_refuses_run refuses
      have executed : s.executed? ⟨config, .run source⟩ = some program := by
        simp only [executed?, read, bound, if_true]
      rw [executed] at known
      rw [perform_run (run_executed config s source read bound), Answer.error?_ran] at failed
      exact (Interpreter.execute_kept (i := (s.interpreter.resolve program).2) (K _) globals stored
        (programs program executed) known).2 f (SessionError.failed?_eq_some failed)
    | evaluate source =>
      obtain ⟨e, read⟩ := not_refuses_evaluate refuses
      have evaluated : s.evaluated? ⟨config, .evaluate source⟩ = some e := by
        simp only [evaluated?, read, Except.toOption]
      rw [evaluated] at known
      rw [perform_evaluate (evaluate_read config s source read), Answer.error?_evaluated] at failed
      have ended : ((evalExpr (s.interpreter.surroundings config) config.bound e).outcome
          s.interpreter.machine).1 = .error (.failure f) :=
        Interpreter.valueOf_error.mp (SessionError.failed?_eq_some failed)
      have run := (((K s.interpreter.distances).all config.bound).expr [] s.interpreter.machine
        (expressions e evaluated) stored known).ends
      unfold Interpreter.surroundings at ended
      rw [ended] at run
      exact run

end Session

def Answer.code (a : Answer) : Nat :=
  match a.error? with
  | none => okCode
  | some e => e.diagnostic.code

private theorem reportRun_code (config : Config) (source : String) :
    (reportRun config source).code = (Session.initial.perform ⟨config, .run source⟩).1.code := by
  rw [reportRun, Session.perform_run rfl]
  rcases Session.initial.run config source with ⟨_ | _, s⟩ <;> rfl

private theorem reportValue_code (config : Config) (source : String) :
    (reportValue config source).code =
      (Session.initial.perform ⟨config, .evaluate source⟩).1.code := by
  rw [reportValue, Session.perform_evaluate rfl]
  rcases Session.initial.evaluate config source with ⟨_ | _, s⟩ <;> rfl

private theorem Answer.code_iff (a : Answer) :
    (a.code = staticErrorCode ↔ a.isStaticError = true) ∧
      (a.code = runtimeErrorCode ↔ a.isOtherError = true) := by
  unfold Answer.code Answer.isStaticError Answer.isOtherError Diagnostic.code SessionError.isStatic
  cases a.error? with
  | none => decide
  | some e => cases kind : e.diagnostic.isStatic <;> simp [kind, staticErrorCode, runtimeErrorCode]

/-- Behind every history an operation answers a static error just when its text cannot be scanned,
parsed or, as a program, resolved; nothing of the text is executed then, whatever is given from
outside.  Executions of programs, expressions and callables fail with nothing but faults of their
own and the words of a broken sink, which are no static errors.  So the flags tell which kinds of
errors were answered since they were last cleared, and the status of the program which kind it ended
with. -/
theorem errors_match_phases (history : List Request) :
    let s := Session.initial.performAll history
    let since := Session.sinceReset (Session.initial.answers history)
    (∀ config operation,
      ((s.perform ⟨config, operation⟩).1.isStaticError = true ↔ s.Refuses operation) ∧
      (s.Refuses operation →
        (s.executed? ⟨config, operation⟩ = none ∧ s.evaluated? ⟨config, operation⟩ = none) ∧
        (s.perform ⟨config, operation⟩).2.interpreter.machine = s.interpreter.machine ∧
        ∀ config', s.perform ⟨config', operation⟩ = s.perform ⟨config, operation⟩)) ∧
    (∀ (config : Config) (i : Interpreter) (f : Failure),
      ((∃ program, (i.execute config program).1 = .error f) ∨
        (∃ e, (i.evaluate config e).1 = .error f) ∨
        ∃ c args, (i.call config c args).1 = .error f) →
      (SessionError.failed f).isStatic = false ∧ f.Possible config) ∧
    (s.hadError = since.any Answer.isStaticError ∧
      s.hadRuntimeError = since.any Answer.isOtherError) ∧
    ∀ config source,
      ((FileTask.report config source .run).code = 65 ↔ Session.initial.Refuses (.run source)) ∧
      ((FileTask.report config source .run).code = 70 ↔
        ∃ f, (Session.initial.run config source).1 = .error (.failed f)) ∧
      ((FileTask.report config source .evaluate).code = 65 ↔
        Session.initial.Refuses (.evaluate source)) ∧
      ((FileTask.report config source .evaluate).code = 70 ↔
        ∃ f, (Session.initial.evaluate config source).1 = .error (.failed f)) := by
  intro s since
  refine ⟨fun config operation => ⟨s.isStaticError_iff_refuses config operation, fun refuses => ?_⟩,
    fun config i f failed => ⟨f.isStatic_eq_false, ?_⟩, Session.flags_tell rfl rfl history,
    fun config source => ?_⟩
  · exact ⟨refuses.nothing config, refuses.refused.machine config,
      fun config' => refuses.refused.config config' config⟩
  · rcases failed with ⟨program, failed⟩ | ⟨e, failed⟩ | ⟨c, args, failed⟩
    · exact Interpreter.execute_fails failed
    · exact Interpreter.evaluate_fails failed
    · exact Interpreter.call_fails failed
  · have ran : (∃ f, (Session.initial.perform ⟨config, .run source⟩).1.error? = some (.failed f)) ↔
        ∃ f, (Session.initial.run config source).1 = .error (.failed f) := by
      rw [Session.perform_run rfl]
      rcases Session.initial.run config source with ⟨_ | _, s⟩ <;> simp [Answer.error?]
    have evaluated :
        (∃ f, (Session.initial.perform ⟨config, .evaluate source⟩).1.error? = some (.failed f)) ↔
          ∃ f, (Session.initial.evaluate config source).1 = .error (.failed f) := by
      rw [Session.perform_evaluate rfl]
      rcases Session.initial.evaluate config source with ⟨_ | _, s⟩ <;> simp [Answer.error?]
    have told := fun operation =>
      (Session.initial.perform ⟨config, operation⟩).1.code_iff
    simp only [FileTask.report, reportRun_code, reportValue_code, ← ran, ← evaluated]
    exact ⟨(told _).1.trans (Session.isStaticError_iff_refuses ..),
      (told _).2.trans (Session.isOtherError_iff ..),
      (told _).1.trans (Session.isStaticError_iff_refuses ..),
      (told _).2.trans (Session.isOtherError_iff ..)⟩

end LoxLang
