import LoxLang.Proofs.StatementComplete
import LoxLang.Proofs.GrammarFront
import LoxLang.Proofs.JoinedPrograms
import LoxLang.Proofs.SessionRuns
import LoxLang.Proofs.TextsAround

/-!
Expressions as statements.  A text is one expression exactly if the text that prints it is one
`print` statement, and the trees carry the same numbers then.
-/

set_option autoImplicit false
set_option relaxedAutoImplicit false

namespace LoxLang

/-- The program that prints the value of an expression. -/
def printing (source : String) : String := "print " ++ source ++ "\n;"

namespace Parse

private theorem outcome_wholeExpression {bound : Nat} {s s' : ParseState} {e : Expr}
    (whole : outcome (wholeExpression bound) s = (.ok e, s')) :
    outcome (expression bound) s = (.ok e, s') ∧ s'.ahead = [] := by
  rw [wholeExpression, outcome_bind] at whole
  rcases read : outcome (expression bound) s with ⟨error | e', s₁⟩
  · rw [read] at whole
    cases whole
  · rw [read] at whole
    dsimp only at whole
    rw [outcome_bind, outcome_atEnd] at whole
    dsimp only at whole
    cases ahead : s₁.ahead with
    | nil =>
      rw [ahead] at whole
      obtain ⟨rfl, rfl⟩ : e' = e ∧ s₁ = s' := by simpa [outcome_pure] using whole
      exact ⟨rfl, ahead⟩
    | cons t ts =>
      rw [ahead] at whole
      simp [outcome_fail] at whole

private theorem outcome_declaration_print {bound : Nat} {keyword semicolon : Token}
    {s s' : ParseState} {ts : List Token} {e : Expr} (isPrint : keyword.kind = .printWord)
    (isEnd : semicolon.kind = .semicolon) (ahead : s.ahead = keyword :: ts)
    (read : outcome (expression bound) { s with ahead := ts } = (.ok e, s'))
    (left : s'.ahead = [semicolon]) :
    outcome (declaration (bound + 1)) s = (.ok (some (.print e)), { s' with ahead := [] }) := by
  have statement : outcome (declarationWith (statement bound)
      (block (declaration bound) bound) bound) s = (.ok (.print e), { s' with ahead := [] }) := by
    have ended : outcome (expect .semicolon .printEnd) s' =
        (.ok semicolon, { s' with ahead := [] }) := by
      rw [expect, outcome_bind, accept, outcome_acceptAny, left]
      simp [isEnd, outcome_pure]
    have starts : keyword.kind ∈ [.forWord, .ifWord, .printWord, .returnWord, .whileWord,
        .leftBrace] := by simp [isPrint]
    rw [outcome_declarationWith ahead starts, statementWith, outcome_bind,
      outcome_acceptAny_head ahead starts]
    dsimp only
    rw [isPrint]
    dsimp only
    rw [printStatement, outcome_bind, read]
    dsimp only
    rw [outcome_bind, ended]
    rfl
  rw [declaration, outcome_recovering, statement]

end Parse

open Parse

private theorem parseProgram_print {labels : Labels} {ts : List Token} {line : Nat} {e : Expr}
    {keyword semicolon : Token} (isPrint : keyword.kind = .printWord)
    (isEnd : semicolon.kind = .semicolon) (lastLine : Nat)
    (read : (parseExpression labels ts line).result = .ok e) :
    parseProgram labels (keyword :: (ts ++ [semicolon])) lastLine =
      ⟨(parseExpression labels ts line).labels, .ok [.print e]⟩ := by
  obtain ⟨state, whole, clean⟩ := parseExpression_ok_iff.mp read
  have numbers : (parseExpression labels ts line).labels = state.labels := by
    rw [parseExpression_labels, whole]
  obtain ⟨run, ended⟩ := outcome_wholeExpression whole
  -- The semicolon is nothing that an expression goes on with.
  have safe : Stop.anywhere.Safe ⟨0, [semicolon], lastLine⟩ := by
    refine .inr fun t ht => ?_
    obtain rfl := Option.some.inj ht
    rw [isEnd]
    decide
  have longer := (carries_expression_before safe (Nat.le_succ ts.length)).result run
    (by rw [clean]; rfl) (Nat.le_refl _) trivial
  simp only [Sequel.before, start, ended, Token.later_zero_eq_id, Expr.later_zero, List.map_id,
    List.map_nil, List.nil_append] at longer
  have first := outcome_declaration_print
    (s := start labels (keyword :: (ts ++ [semicolon])) lastLine) isPrint isEnd rfl longer rfl
  have length : (keyword :: (ts ++ [semicolon])).length = ts.length + 2 := by simp
  rw [← length] at first
  have single := parseProgram_single first rfl clean
  rw [numbers]
  exact single

private theorem expression_of_print {tokens : List Token} {keyword : Token} {e : Expr}
    (isPrint : keyword.kind = .printWord)
    (program : Grammar.Program .nearestIf (keyword :: tokens) [.print e]) :
    ∃ semicolon, Grammar.Expression tokens e [semicolon] := by
  generalize same : Stmt.print e = s at program
  cases program with
  | cons first others =>
    cases others
    cases first with
    | statement statement =>
      cases statement with
      | print _ expression _ =>
        cases same
        exact ⟨_, expression⟩
      | forLoop word =>
        rw [isPrint] at word
        cases word
      | expression s =>
        cases s
        cases same
      | _ => cases same
    | var declaration => cases declaration <;> cases same
    | _ => cases same

private theorem parseExpression_of_print {labels : Labels} {ts : List Token} {e : Expr}
    {keyword semicolon : Token} (isEnd : semicolon.kind = .semicolon)
    (isPrint : keyword.kind = .printWord) {lastLine : Nat} (line : Nat)
    (read : (parseProgram labels (keyword :: (ts ++ [semicolon])) lastLine).result =
      .ok [.print e]) :
    (parseExpression labels ts line).result = .ok e := by
  obtain ⟨semicolon', derived⟩ := expression_of_print isPrint (parseProgram_sound read).1
  obtain ⟨front, same, alone⟩ := derived.before []
  obtain ⟨rfl, -⟩ : ts = front ∧ _ := List.append_inj' same rfl
  rw [List.append_nil] at alone
  obtain ⟨e', read', -⟩ := parseExpression_complete alone labels line
  rw [parseProgram_print isPrint isEnd lastLine read'] at read
  simp only [Except.ok.injEq, List.cons.injEq, Stmt.print.injEq, and_true] at read
  rw [read', read]

private theorem scan_print_before (source : String) :
    scan ("print " ++ source) =
      ⟨⟨.printWord, "print", 1⟩ :: (scan source).tokens, (scan source).lastLine,
        (scan source).faults⟩ := by
  have blank : scan (" " ++ source) = scan source :=
    @scan_skipped ' ' [] source .skipped rfl (by decide) rfl
  have word : Scan.munch 'p' (['r', 'i', 'n', 't'] ++ (" " ++ source).toList) = (.word, 4) := by
    rw [String.toList_append]
    rfl
  have token := scan_token (t := ⟨.printWord, "print", 1⟩) word (by decide) rfl
  rw [blank, ← String.append_assoc] at token
  exact token

private theorem printing_eq (source : String) :
    printing source = "print " ++ source ++ "\n" ++ ";" := by
  rw [printing, @String.append_assoc ("print " ++ source)]
  rfl

private theorem scan_printing {source : String} (sound : (scan source).faults = []) :
    scan (printing source) =
      ⟨⟨.printWord, "print", 1⟩ :: ((scan source).tokens ++
        [⟨.semicolon, ";", 1 + linesOf ("print " ++ source)⟩]), 1 + linesOf ("print " ++ source),
        []⟩ := by
  have front := scan_print_before source
  have last : scan ";" = ⟨[⟨.semicolon, ";", 1⟩], 1, []⟩ := rfl
  have joined := @scan_join ("print " ++ source) ";" ((congrArg Scanned.faults front).trans sound)
  rw [← printing_eq, front, last] at joined
  exact joined

private theorem scan_sound_of_printing {source : String}
    (sound : (scan (printing source)).faults = []) :
    (scan source).faults = [] := by
  rw [printing_eq] at sound
  have front := scan_sound_of_join sound (by decide)
  rw [scan_print_before] at front
  exact front

private theorem readProgram_eq_ok_iff {source : String} (sound : (scan source).faults = [])
    {labels after : Labels} {program : List Stmt} :
    readProgram labels source = ⟨after, .ok program⟩ ↔
      parseProgram labels (scan source).tokens (scan source).lastLine = ⟨after, .ok program⟩ := by
  rcases parsed : parseProgram labels (scan source).tokens (scan source).lastLine with
    ⟨_, errors | program'⟩ <;> simp [readProgram, sound, parsed]

private theorem readExpression_eq_ok_iff {source : String} (sound : (scan source).faults = [])
    {labels after : Labels} {e : Expr} :
    readExpression labels source = ⟨after, .ok e⟩ ↔
      parseExpression labels (scan source).tokens (scan source).lastLine = ⟨after, .ok e⟩ := by
  rcases parsed : parseExpression labels (scan source).tokens (scan source).lastLine with
    ⟨_, error | e'⟩ <;> simp [readExpression, sound, parsed, Except.mapError]

/-- A text is one expression exactly if the program around it is the statement that prints it. -/
theorem readProgram_printing_iff {source : String} {labels after : Labels} {e : Expr} :
    readProgram labels (printing source) = ⟨after, .ok [.print e]⟩ ↔
      readExpression labels source = ⟨after, .ok e⟩ := by
  constructor
  · intro read
    have whole := (readProgram_ok (congrArg Parsed.result read)).1
    have sound := scan_sound_of_printing whole
    rw [readProgram_eq_ok_iff whole, scan_printing sound] at read
    rw [readExpression_eq_ok_iff sound]
    have alone : (parseExpression labels (scan source).tokens (scan source).lastLine).result =
        .ok e := parseExpression_of_print rfl rfl _ (congrArg Parsed.result read)
    rw [parseProgram_print rfl rfl _ alone] at read
    exact congrArg₂ Parsed.mk (congrArg Parsed.labels read) alone
  · intro read
    have sound := (readExpression_ok (congrArg Parsed.result read)).1
    rw [readExpression_eq_ok_iff sound] at read
    have whole : (scan (printing source)).faults = [] := by rw [scan_printing sound]
    rw [readProgram_eq_ok_iff whole, scan_printing sound,
      parseProgram_print rfl rfl _ (congrArg Parsed.result read), read]

end LoxLang
