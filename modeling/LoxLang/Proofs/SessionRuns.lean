import LoxLang.Proofs.History
import LoxLang.Proofs.NestedSteps
import LoxLang.Proofs.StatementSound

/-!
How texts are read and run in a session: the numbers that are handed out meanwhile, and what an
operation comes to in each of its cases.
-/

set_option autoImplicit false
set_option relaxedAutoImplicit false

namespace LoxLang

theorem readProgram_labels_le (labels : Labels) (source : String) :
    labels ≤ (readProgram labels source).labels :=
  parseProgram_labels_le labels _ _

theorem readProgram_ok {labels : Labels} {source : String} {program : List Stmt}
    (h : (readProgram labels source).result = .ok program) :
    (scan source).faults = [] ∧
      (parseProgram labels (scan source).tokens (scan source).lastLine).result = .ok program := by
  unfold readProgram at h
  cases faults : (scan source).faults with
  | nil =>
    refine ⟨rfl, ?_⟩
    cases parsed : (parseProgram labels (scan source).tokens (scan source).lastLine).result with
    | ok p => simpa [faults, parsed] using h
    | error errors => simp [faults, parsed] at h
  | cons e es =>
    cases parsed : (parseProgram labels (scan source).tokens (scan source).lastLine).result <;>
      simp [faults, parsed] at h

theorem readProgram_numbered {labels : Labels} {source : String} {program : List Stmt}
    (h : (readProgram labels source).result = .ok program) :
    Numbered labels (Stmt.labelsAll program) (readProgram labels source).labels :=
  (parseProgram_sound (readProgram_ok h).2).2

theorem readExpression_labels_le (labels : Labels) (source : String) :
    labels ≤ (readExpression labels source).labels := by
  unfold readExpression
  dsimp only
  split
  · exact parseExpression_labels_le labels _ _
  · exact Labels.le_rfl

theorem readExpression_ok {labels : Labels} {source : String} {e : Expr}
    (h : (readExpression labels source).result = .ok e) :
    (scan source).faults = [] ∧
      parseExpression labels (scan source).tokens (scan source).lastLine =
        ⟨(readExpression labels source).labels, .ok e⟩ := by
  unfold readExpression at h ⊢
  cases faults : (scan source).faults with
  | nil =>
    refine ⟨rfl, ?_⟩
    rcases parsed : parseExpression labels (scan source).tokens (scan source).lastLine with
      ⟨after, error | e'⟩
    · simp [faults, parsed, Except.mapError] at h
    · simpa [faults, parsed, Except.mapError] using h
  | cons fault others => simp [faults] at h

theorem readExpression_numbered {labels : Labels} {source : String} {e : Expr}
    (h : (readExpression labels source).result = .ok e) :
    Numbered labels e.labels (readExpression labels source).labels := by
  have parsed := (readExpression_ok h).2
  have sound := parseExpression_sound (congrArg Parsed.result parsed)
  rw [parsed] at sound
  exact sound.2

namespace Session

section

variable (config : Config) (s : Session) (source : String)

theorem run_unread {errors : List StaticError}
    (read : (readProgram s.labels source).result = .error errors) :
    s.run config source = (.error (.rejected errors),
      { s with labels := (readProgram s.labels source).labels, hadError := true }) := by
  simp only [run, read, refusing]

theorem run_unbound {program : List Stmt}
    (read : (readProgram s.labels source).result = .ok program)
    (unbound : (s.interpreter.resolve program).1 ≠ []) :
    s.run config source =
      (.error (.rejected ((s.interpreter.resolve program).1.map StaticError.binding)),
        { s with
          interpreter := (s.interpreter.resolve program).2
          labels := (readProgram s.labels source).labels
          hadError := true }) := by
  simp only [run, read]
  cases errors : (s.interpreter.resolve program).1 with
  | nil => exact absurd errors unbound
  | cons e es => rfl

/-- A program that breaks no rule is executed. -/
theorem run_executed {program : List Stmt}
    (read : (readProgram s.labels source).result = .ok program)
    (bound : (s.interpreter.resolve program).1 = []) :
    s.run config source =
      let executed := (s.interpreter.resolve program).2.execute config program
      (executed.1.mapError .failed,
        { s with
          interpreter := executed.2
          labels := (readProgram s.labels source).labels
          hadRuntimeError := s.hadRuntimeError || !executed.1.isOk }) := by
  simp only [run, read, bound, after]

theorem run_further {limit : Nat} (le : config.bound ≤ limit) :
    s.run { config with bound := limit } source = s.run config source ∨
      (s.run config source).1 = .error (.failed .exhausted) ∧
        (s.run config source).2.lines <+: (s.run { config with bound := limit } source).2.lines := by
  cases read : (readProgram s.labels source).result with
  | error errors => exact .inl ((run_unread _ s source read).trans (run_unread _ s source read).symm)
  | ok program =>
    by_cases bound : (s.interpreter.resolve program).1 = []
    · rw [run_executed _ s source read bound, run_executed _ s source read bound]
      rcases (s.interpreter.resolve program).2.execute_further le program with same | ⟨cut, lines⟩
      · exact .inl (by rw [same])
      · exact .inr ⟨congrArg (Except.mapError SessionError.failed) cut, lines⟩
    · exact .inl ((run_unbound _ s source read bound).trans (run_unbound _ s source read bound).symm)

theorem evaluate_unread {e : SessionError}
    (read : (readExpression s.labels source).result = .error e) :
    s.evaluate config source =
      (.error e, { s with labels := (readExpression s.labels source).labels, hadError := true }) := by
  simp only [evaluate, read, refusing]

theorem evaluate_read {e : Expr} (read : (readExpression s.labels source).result = .ok e) :
    s.evaluate config source =
      let evaluated := s.interpreter.evaluate config e
      (evaluated.1.mapError .failed,
        { s with
          interpreter := evaluated.2
          labels := (readExpression s.labels source).labels
          hadRuntimeError := s.hadRuntimeError || !evaluated.1.isOk }) := by
  simp only [evaluate, read, after]

theorem run_labels : (s.run config source).2.labels = (readProgram s.labels source).labels := by
  cases read : (readProgram s.labels source).result with
  | error errors => rw [run_unread config s source read]
  | ok program =>
    by_cases bound : (s.interpreter.resolve program).1 = []
    · rw [run_executed config s source read bound]
    · rw [run_unbound config s source read bound]

theorem evaluate_labels :
    (s.evaluate config source).2.labels = (readExpression s.labels source).labels := by
  cases read : (readExpression s.labels source).result with
  | error errors => rw [evaluate_unread config s source read]
  | ok e => rw [evaluate_read config s source read]

end

theorem perform_labels_le (s : Session) (r : Request) : s.labels ≤ (s.perform r).2.labels := by
  obtain ⟨config, operation⟩ := r
  cases operation with
  | run source =>
    simp only [perform, run_labels]
    exact readProgram_labels_le s.labels source
  | evaluate source =>
    simp only [perform, evaluate_labels]
    exact readExpression_labels_le s.labels source
  | resetErrors => exact Labels.le_rfl

theorem performAll_append (s : Session) (rs rs' : List Request) :
    s.performAll (rs ++ rs') = (s.performAll rs).performAll rs' := by
  induction rs generalizing s with
  | nil => rfl
  | cons r rs ih => exact ih _

theorem performAll_labels_le (s : Session) (rs : List Request) :
    s.labels ≤ (s.performAll rs).labels := by
  induction rs generalizing s with
  | nil => exact Labels.le_rfl
  | cons r rs ih => exact Labels.le_trans (perform_labels_le s r) (ih _)

end Session

end LoxLang
