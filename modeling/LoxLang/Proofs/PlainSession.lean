import LoxLang.Proofs.InterpreterSimulation
import LoxLang.Proofs.ParserShift
import LoxLang.Proofs.PlainValues
import LoxLang.Proofs.ResolveRuns
import LoxLang.Proofs.SessionRuns

/-!
Sessions that differ in numbers alone.  The numbers that a session hands out may be greater than
those of another one; performed on both, an operation shows the same.
-/

set_option autoImplicit false
set_option relaxedAutoImplicit false

namespace LoxLang

section

variable {M : Mirror} {W : World} {f : ExprId → ExprId} {g : SiteId → SiteId} (plain : M.Plain)
  (level : M.Level)

include plain level

theorem EndRel.eq {R : Unit → Unit → Prop} {r r' : Except Failure Unit} (h : EndRel M R r r') :
    r' = r := by
  cases h with
  | ok _ => rfl
  | error h => rw [h.eq plain level]

private theorem EndRel.value (maps : M.Maps f g) (unchanged : W.Unchanged)
    {r r' : Except Failure Value} (h : EndRel M (ValueRel M W) r r') :
    r'.isOk = r.isOk ∧ Answer.evaluated (r'.mapError .failed) =
      (Answer.evaluated (r.mapError .failed)).renumber f g := by
  cases h with
  | ok h =>
    have same := h.eq_mapDecls (plain.turns_level maps level) unchanged
    rw [Value.mapDecls_renumber] at same
    exact ⟨rfl, congrArg (fun v => Answer.evaluated (.ok v)) same⟩
  | error h =>
    rw [h.eq plain level]
    exact ⟨rfl, rfl⟩

end

/-! Reading a text from greater numbers. -/

theorem readProgram_plus (labels k : Labels) (source : String) :
    readProgram (labels.plus k) source = (readProgram labels source).shift k := by
  unfold readProgram
  simp only [parseProgram_plus, Parsed.shift]
  cases (scan source).faults with
  | nil => cases (parseProgram labels (scan source).tokens (scan source).lastLine).result <;> rfl
  | cons e es =>
    cases (parseProgram labels (scan source).tokens (scan source).lastLine).result <;> rfl

theorem readExpression_plus (labels k : Labels) (source : String) :
    readExpression (labels.plus k) source = (readExpression labels source).shift k := by
  unfold readExpression
  simp only [parseExpression_plus]
  cases (scan source).faults with
  | nil =>
    simp only [Parsed.shift]
    cases (parseExpression labels (scan source).tokens (scan source).lastLine).result <;> rfl
  | cons e es => rfl

def Mirror.Fits (M : Mirror) (k lo hi : Labels) : Prop :=
  ∀ l : Label, l.Within lo hi → M.Relates (· + k.expr) (· + k.site) 0 l

private theorem Mirror.Fits.mono {M : Mirror} {k lo hi lo' hi' : Labels} (h : M.Fits k lo hi)
    (hlo : lo ≤ lo') (hhi : hi' ≤ hi) : M.Fits k lo' hi' :=
  fun l within => h l (within.mono hlo hhi)

private theorem Mirror.Fits.all {M : Mirror} {k lo hi : Labels} (h : M.Fits k lo hi)
    {ls : List Label}
    (numbered : Numbered lo ls hi) : M.RelatesAll (· + k.expr) (· + k.site) 0 ls :=
  fun l hl => h l (numbered.within l hl)

section

variable {M : Mirror} {W : World} {f : ExprId → ExprId} {g : SiteId → SiteId} (plain : M.Plain)
  {i i' : Interpreter} {p : List Stmt} (relates : M.RelatesAll f g 0 (Stmt.labelsAll p))

include plain relates

theorem InterpreterRel.resolve_renumber (h : InterpreterRel M W i i') :
    (i'.resolve (Stmt.renumberAll f g p)).1 = (i.resolve p).1 ∧
      InterpreterRel M W (i.resolve p).2 (i'.resolve (Stmt.renumberAll f g p)).2 := by
  obtain ⟨errors, distances⟩ := LoxLang.resolve_renumber (g := g) plain.expr_iff
    (fun he => (h.distances he).1) 0 fun id member => relates _ member
  rw [Stmt.laterAll_zero, BindingError.map_later_zero] at errors
  rw [Stmt.laterAll_zero] at distances
  exact ⟨errors, h.machine, h.scope, fun he => ⟨distances he, plain.bound _ _⟩⟩

theorem InterpreterRel.execute_renumber (level : M.Level) (config : Config)
    (h : InterpreterRel M W i i') :
    (i'.execute config (Stmt.renumberAll f g p)).1 = (i.execute config p).1 ∧
      ∃ W', InterpreterRel M W' (i.execute config p).2
        (i'.execute config (Stmt.renumberAll f g p)).2 := by
  have tree : StmtsRel M (M.drop 0) (W.around .globals) p (Stmt.renumberAll f g p) := by
    have rel := StmtsRel.renumber plain (h.machine.unchanged plain .globals) p relates
    rw [Stmt.laterAll_zero] at rel
    rw [level]
    exact rel
  obtain ⟨W', _, executed, behind⟩ := Interpreter.execute_rel config h tree
  exact ⟨executed.eq plain level, W', behind⟩

end

private theorem ExprRel.shifted {M : Mirror} (plain : M.Plain) {Γ : List Renaming}
    (unchanged : Unchanged Γ) {k : Labels} {e : Expr}
    (relates : M.RelatesAll (· + k.expr) (· + k.site) 0 e.labels) :
    ExprRel M 0 Γ e (shifted k e) := by
  have rel := ExprRel.renumber plain unchanged e relates
  rw [Expr.later_zero] at rel
  exact rel

/-- Sessions that mirror one another, the second of which hands out greater numbers. -/
structure SessionRel (M : Mirror) (k : Labels) (s s' : Session) : Prop where
  interpreter : ∃ W, InterpreterRel M W s.interpreter s'.interpreter
  labels : s'.labels = s.labels.plus k
  hadRuntimeError : s'.hadRuntimeError = s.hadRuntimeError

section

variable {M : Mirror} {f : ExprId → ExprId} {g : SiteId → SiteId} (plain : M.Plain)
  (level : M.Level) (maps : M.Maps f g) {k : Labels} {s s' : Session}

theorem SessionRel.lines_eq (h : SessionRel M k s s') : s'.lines = s.lines := by
  obtain ⟨W, hi⟩ := h.interpreter
  exact congrArg Array.toList hi.machine.printed

structure StepRel (M : Mirror) (f : ExprId → ExprId) (g : SiteId → SiteId) (k : Labels)
    (s s' : Session) (step step' : Answer × Session) : Prop where
  session : SessionRel M k step.2 step'.2
  answer : step'.1 = step.1.renumber f g
  hadError : s'.hadError = s.hadError → step'.2.hadError = step.2.hadError

theorem StepRel.shows {step step' : Answer × Session} (h : SessionRel M k s s')
    (rel : StepRel M f g k s s' step step') :
    s'.shows step' =
      { (s.shows step).renumber f g with hadError := step'.2.hadError } := by
  simp only [Session.shows, Observation.renumber, h.lines_eq, rel.session.lines_eq, rel.answer,
    rel.session.hadRuntimeError]

include plain level

private theorem run_rel (config : Config) (source : String) (h : SessionRel M k s s')
    (fits : M.Fits k s.labels (s.run config source).2.labels) :
    StepRel M f g k s s' (s.perform ⟨config, .run source⟩) (s'.perform ⟨config, .run source⟩) := by
  obtain ⟨⟨W, hi⟩, labels, flag⟩ := h
  have read : readProgram s'.labels source = (readProgram s.labels source).shift k := by
    rw [labels, readProgram_plus]
  rw [Session.run_labels] at fits
  simp only [Session.perform]
  cases result : (readProgram s.labels source).result with
  | error errors =>
    have result' : (readProgram s'.labels source).result = .error errors := by
      rw [read, Parsed.shift, result, Except.map]
    rw [s.run_unread config source result, s'.run_unread config source result']
    exact ⟨⟨⟨W, hi⟩, congrArg Parsed.labels read, flag⟩, rfl, fun _ => rfl⟩
  | ok program =>
    have result' : (readProgram s'.labels source).result = .ok (shifted k program) := by
      rw [read, Parsed.shift, result, Except.map]
    have relates := fits.all (readProgram_numbered result)
    obtain ⟨same, resolved⟩ := hi.resolve_renumber plain relates
    by_cases bound : (s.interpreter.resolve program).1 = []
    · rw [s.run_executed config source result bound,
        s'.run_executed config source result' (same.trans bound)]
      obtain ⟨ends, W', behind⟩ := resolved.execute_renumber plain relates level config
      dsimp only [shifted, Renumberable.renumber]
      rw [ends]
      exact ⟨⟨⟨W', behind⟩, congrArg Parsed.labels read, congrArg (· || _) flag⟩, rfl, fun h => h⟩
    · rw [s.run_unbound config source result bound,
        s'.run_unbound config source result' (same.trans_ne bound)]
      dsimp only [shifted, Renumberable.renumber]
      rw [same]
      exact ⟨⟨⟨W, resolved⟩, congrArg Parsed.labels read, flag⟩, rfl, fun _ => rfl⟩

include maps

private theorem evaluate_rel (config : Config) (source : String) (h : SessionRel M k s s')
    (fits : M.Fits k s.labels (s.evaluate config source).2.labels) :
    StepRel M f g k s s' (s.perform ⟨config, .evaluate source⟩)
      (s'.perform ⟨config, .evaluate source⟩) := by
  obtain ⟨⟨W, hi⟩, labels, flag⟩ := h
  have read : readExpression s'.labels source = (readExpression s.labels source).shift k := by
    rw [labels, readExpression_plus]
  rw [Session.evaluate_labels] at fits
  simp only [Session.perform]
  cases result : (readExpression s.labels source).result with
  | error e =>
    have result' : (readExpression s'.labels source).result = .error e := by
      rw [read, Parsed.shift, result, Except.map]
    rw [s.evaluate_unread config source result, s'.evaluate_unread config source result']
    exact ⟨⟨⟨W, hi⟩, congrArg Parsed.labels read, flag⟩, rfl, fun _ => rfl⟩
  | ok e =>
    have result' : (readExpression s'.labels source).result = .ok (shifted k e) := by
      rw [read, Parsed.shift, result, Except.map]
    have tree : ExprRel M (M.drop 0) (W.around .globals) e (shifted k e) := by
      rw [level]
      exact .shifted plain (hi.machine.unchanged plain _)
        (fits.all (readExpression_numbered result))
    rw [s.evaluate_read config source result, s'.evaluate_read config source result']
    obtain ⟨W', later, evaluated, behind⟩ := Interpreter.evaluate_rel config hi tree
    obtain ⟨ends, shown⟩ := evaluated.value plain level maps (behind.machine.unchanged plain)
    dsimp only
    rw [ends]
    exact ⟨⟨⟨W', behind⟩, congrArg Parsed.labels read, congrArg (· || _) flag⟩, shown, fun h => h⟩

theorem perform_rel (r : Request) (h : SessionRel M k s s')
    (fits : M.Fits k s.labels (s.perform r).2.labels) :
    StepRel M f g k s s' (s.perform r) (s'.perform r) := by
  obtain ⟨config, operation⟩ := r
  cases operation with
  | run source => exact run_rel plain level config source h fits
  | evaluate source => exact evaluate_rel plain level maps config source h fits
  | resetErrors => exact ⟨⟨h.interpreter, h.labels, rfl⟩, rfl, fun _ => rfl⟩

theorem SessionRel.observe_renumber (h : SessionRel M k s s')
    (fits : ∀ hi, M.Fits k s.labels hi) (rs : List Request) (flag : s'.hadError = s.hadError) :
    s'.observe rs = (s.observe rs).map (.renumber f g) := by
  induction rs generalizing s s' with
  | nil => rfl
  | cons r rs ih =>
    have step := perform_rel plain level maps r h (fits _)
    have same := step.hadError flag
    have first := step.shows h
    rw [same] at first
    have rest := ih step.session
      (fun hi => (fits hi).mono (Session.perform_labels_le s r) Labels.le_rfl) same
    rw [Session.observe, Session.observe, List.map_cons, first, rest]
    rfl

/-- A session goes on to mirror itself as long as the numbers that it hands out stay. -/
theorem SessionRel.performAll {mark : Labels} (fits : M.Fits ⟨0, 0⟩ ⟨0, 0⟩ mark)
    (h : SessionRel M ⟨0, 0⟩ s s) (rs : List Request) (below : (s.performAll rs).labels ≤ mark) :
    SessionRel M ⟨0, 0⟩ (s.performAll rs) (s.performAll rs) := by
  induction rs generalizing s with
  | nil => exact h
  | cons r rs ih =>
    have fits : M.Fits ⟨0, 0⟩ s.labels (s.perform r).2.labels :=
      fits.mono ⟨Nat.zero_le _, Nat.zero_le _⟩
        (Labels.le_trans (Session.performAll_labels_le _ rs) below)
    exact ih (perform_rel plain level maps r h fits).session below

end

theorem SessionRel.initial {M : Mirror} (plain : M.Plain) :
    SessionRel M ⟨0, 0⟩ .initial .initial where
  interpreter := by
    refine ⟨[.refl], .initial, rfl, fun {id id'} _ => ⟨?_, plain.bound _ _⟩⟩
    simp [Session.initial, Interpreter.initial]
  labels := rfl
  hadRuntimeError := rfl

end LoxLang
