import LoxLang.Proofs.JoinedPrograms
import LoxLang.Proofs.SessionRuns
import LoxLang.Proofs.TextsAround

/-!
Programs between braces.  The text of a program with braces around it is read as one block, whose
statements are those of the program, with the numbers that they have without the braces.
-/

set_option autoImplicit false
set_option relaxedAutoImplicit false

namespace LoxLang

/-- A text between braces, the closing one on a line of its own. -/
def braced (source : String) : String := "\x7b" ++ source ++ "\n\x7d"

namespace Parse

variable {declaration declaration' : ParseM (Option Stmt)} {s s' : ParseState}

private theorem outcome_declarationsFrom_block (declaration : ParseM (Option Stmt)) (bound : Nat)
    (s : ParseState) :
    outcome (declarationsFrom declaration true (bound + 1)) s =
      if ∀ t ∈ s.ahead.head?, t.kind = .rightBrace then (.ok [], s)
      else outcome (do
        let first ← declaration
        let others ← declarationsFrom declaration true bound
        pure (first.toList ++ others)) s := by
  rw [declarationsFrom, outcome_bind, outcome_atEnd]
  dsimp only
  rw [outcome_bind, outcome_check]
  cases ahead : s.ahead with
  | nil => simp [outcome_pure]
  | cons t ts =>
    by_cases closes : t.kind = .rightBrace
    · simp [closes, outcome_pure]
    · simp [closes]

private theorem declarationsFrom_before_brace_end {q : Sequel} {c c' : Nat} {ss : List Stmt}
    (run : outcome (declarationsFrom declaration false c) s = (.ok ss, s')) (none : s.ahead = [])
    (closed : ∀ t ∈ q.tokens.head?, t.kind = .rightBrace) :
    s'.ahead = [] ∧ outcome (declarationsFrom declaration' true c') (q.before s) =
      (.ok (Stmt.laterAll q.lines ss), q.before s') := by
  obtain ⟨rfl, rfl⟩ := declarationsFrom_at_end run none
  refine ⟨none, ?_⟩
  cases c' with
  | zero => rfl
  | succ c' =>
    have ends : ∀ t ∈ (q.before s').ahead.head?, t.kind = .rightBrace := by
      simpa [Sequel.before, none] using closed
    rw [outcome_declarationsFrom_block, if_pos ends]
    rfl

private theorem declarationsFrom_before_brace {q : Sequel} {b c c' : Nat} {ss : List Stmt}
    (h : Carries q b .anywhere 1 (Option.map (Stmt.later q.lines)) declaration declaration')
    (starts : Yields declaration ReadsDeclaration)
    (closed : ∀ t ∈ q.tokens.head?, t.kind = .rightBrace)
    (run : outcome (declarationsFrom declaration false c) s = (.ok ss, s'))
    (same : s'.errors = s.errors) (few : s.ahead.length ≤ c) (le : c ≤ b) (wide : c ≤ c') :
    s'.ahead = [] ∧ outcome (declarationsFrom declaration' true c') (q.before s) =
      (.ok (Stmt.laterAll q.lines ss), q.before s') := by
  induction c generalizing s c' ss with
  | zero =>
    have none : s.ahead = [] := List.length_eq_zero_iff.mp (Nat.le_zero.mp few)
    exact declarationsFrom_before_brace_end run none closed
  | succ c ih =>
    by_cases none : s.ahead = []
    · exact declarationsFrom_before_brace_end run none closed
    · have le' := Nat.le_of_succ_le le
      obtain ⟨first, s₁, others, ⟨run₁, same₁, taken⟩, ⟨run₃, same₃⟩, rfl⟩ :=
        declarationsFrom_in_turn h run same none le'
      obtain ⟨c', rfl⟩ : ∃ c₀, c' = c₀ + 1 := ⟨c' - 1, by omega⟩
      obtain ⟨ended, goOn⟩ := ih run₃ same₃ (by omega) le' (Nat.le_of_succ_le_succ wide)
      have first' := h.result run₁ same₁ (Nat.le_trans few le) trivial
      -- No declaration starts with the brace at which a block ends.
      have opens : ¬ ∀ t ∈ (q.before s).ahead.head?, t.kind = .rightBrace := by
        obtain ⟨a, _, derived, _⟩ := starts.result run₁ same₁
        have other := derived.starts.disjoint [.rightBrace] (by decide)
        obtain ⟨t, ts, ahead⟩ := List.exists_cons_of_ne_nil none
        intro closes
        refine other t (by rw [ahead]; rfl) (List.mem_singleton.mpr ?_)
        exact closes (t.later q.lines) (by simp [Sequel.before, ahead])
      refine ⟨ended, ?_⟩
      rw [outcome_declarationsFrom_block, if_neg opens, outcome_bind, first']
      dsimp only
      rw [outcome_bind, goOn]
      simp [outcome_pure, laterAll_append, laterAll_toList]

private theorem outcome_declaration_block {bound : Nat} {opening closing : Token}
    {s s' : ParseState} {ts : List Token} {body : List Stmt} (opens : opening.kind = .leftBrace)
    (closes : closing.kind = .rightBrace) (ahead : s.ahead = opening :: ts)
    (read : outcome (declarationsFrom (Parse.declaration bound) true bound) { s with ahead := ts } =
      (.ok body, s')) (left : s'.ahead = [closing]) :
    outcome (Parse.declaration (bound + 1)) s =
      (.ok (some (.block body)), { s' with ahead := [] }) := by
  have statement : outcome (declarationWith (statement bound)
      (block (Parse.declaration bound) bound) bound) s =
        (.ok (.block body), { s' with ahead := [] }) := by
    have ended : outcome (expect .rightBrace .blockClosing) s' =
        (.ok closing, { s' with ahead := [] }) := by
      rw [expect, outcome_bind, accept, outcome_acceptAny, left]
      simp [closes, outcome_pure]
    have starts : opening.kind ∈ [.forWord, .ifWord, .printWord, .returnWord, .whileWord,
        .leftBrace] := by simp [opens]
    rw [outcome_declarationWith ahead starts, statementWith, outcome_bind,
      outcome_acceptAny_head ahead starts]
    dsimp only
    rw [opens]
    dsimp only
    rw [outcome_map, block, outcome_bind, read]
    dsimp only
    rw [outcome_bind, ended]
    rfl
  rw [Parse.declaration, outcome_recovering, statement]

end Parse

open Parse

private theorem parseProgram_braced {labels : Labels} {ts : List Token} {line : Nat}
    {program : List Stmt} {opening closing : Token} (opens : opening.kind = .leftBrace)
    (closes : closing.kind = .rightBrace) (lastLine : Nat)
    (read : (parseProgram labels ts line).result = .ok program) :
    parseProgram labels (opening :: (ts ++ [closing])) lastLine =
      ⟨(parseProgram labels ts line).labels, .ok [.block program]⟩ := by
  obtain ⟨state, run, clean⟩ := parseProgram_ok_iff.mp read
  have numbers : (parseProgram labels ts line).labels = state.labels := by
    rw [parseProgram_labels, run]
  let q : Sequel := ⟨0, [closing], lastLine⟩
  have apart : ∀ t ∈ q.tokens.head?, t.kind ≠ .elseWord := by simp [q, closes]
  have carried := (carries_statement_declaration apart (Nat.le_succ ts.length)).2
  obtain ⟨ended, longer⟩ := declarationsFrom_before_brace carried
    (yields_statement_declaration ts.length).2 (by simp [q, closes]) run clean (Nat.le_refl _)
    (Nat.le_refl _) (Nat.le_succ _)
  simp only [q, Sequel.before, start, ended, Token.later_zero_eq_id, Stmt.laterAll_zero,
    List.map_id, List.map_nil, List.nil_append] at longer
  have first := outcome_declaration_block
    (s := start labels (opening :: (ts ++ [closing])) lastLine) opens closes rfl longer rfl
  have length : (opening :: (ts ++ [closing])).length = ts.length + 2 := by simp
  rw [← length] at first
  have single := parseProgram_single first rfl clean
  rw [numbers]
  exact single

private theorem scan_brace_before (source : String) :
    scan ("\x7b" ++ source) =
      ⟨⟨.leftBrace, "\x7b", 1⟩ :: (scan source).tokens, (scan source).lastLine,
        (scan source).faults⟩ :=
  @scan_token '\x7b' [] source (.token .leftBrace) ⟨.leftBrace, "\x7b", 1⟩ rfl (by decide) rfl

private theorem braced_eq (source : String) : braced source = "\x7b" ++ source ++ "\n" ++ "\x7d" :=
  by
  rw [braced, @String.append_assoc ("\x7b" ++ source)]
  rfl

private theorem scan_braced {source : String} (sound : (scan source).faults = []) :
    scan (braced source) =
      ⟨⟨.leftBrace, "\x7b", 1⟩ :: ((scan source).tokens ++
        [⟨.rightBrace, "\x7d", 1 + linesOf ("\x7b" ++ source)⟩]), 1 + linesOf ("\x7b" ++ source),
        []⟩ := by
  have front := scan_brace_before source
  have last : scan "\x7d" = ⟨[⟨.rightBrace, "\x7d", 1⟩], 1, []⟩ := rfl
  have joined := @scan_join ("\x7b" ++ source) "\x7d"
    ((congrArg Scanned.faults front).trans sound)
  rw [← braced_eq, front, last] at joined
  exact joined

/-- The text of a program between braces is read as the block of its statements. -/
theorem readProgram_braced {labels : Labels} {source : String} {program : List Stmt}
    (read : (readProgram labels source).result = .ok program) :
    readProgram labels (braced source) =
      ⟨(readProgram labels source).labels, .ok [.block program]⟩ := by
  obtain ⟨sound, parsed⟩ := readProgram_ok read
  have opens : (Token.mk .leftBrace "\x7b" 1).kind = .leftBrace := rfl
  have closes : (Token.mk .rightBrace "\x7d" (1 + linesOf ("\x7b" ++ source))).kind =
    .rightBrace := rfl
  have whole := parseProgram_braced opens closes (1 + linesOf ("\x7b" ++ source)) parsed
  unfold readProgram
  simp only [scan_braced sound, List.map_nil, whole]

end LoxLang
