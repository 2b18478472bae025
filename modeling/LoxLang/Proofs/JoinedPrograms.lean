import LoxLang.Proofs.JoinedTexts
import LoxLang.Proofs.RuleContinuation

/-!
Programs one behind the other.  The tokens of two programs in a row parse to the statements of the
first one and those of the second one, which stand further down; numbers are handed out as if the
second program were parsed after the first one.
-/

set_option autoImplicit false
set_option relaxedAutoImplicit false

namespace LoxLang

namespace Parse

variable {declaration declaration' : ParseM (Option Stmt)} {s s' : ParseState}

theorem outcome_declarationsFrom (declaration : ParseM (Option Stmt)) (bound : Nat)
    (s : ParseState) :
    outcome (declarationsFrom declaration false (bound + 1)) s =
      if s.ahead = [] then (.ok [], s)
      else outcome (do
        let first ← declaration
        let others ← declarationsFrom declaration false bound
        pure (first.toList ++ others)) s := by
  rw [declarationsFrom, outcome_bind, outcome_atEnd]
  dsimp only
  rw [outcome_bind, outcome_check]
  cases ahead : s.ahead with
  | nil => rfl
  | cons t ts => simp

theorem laterAll_append (k : Nat) (ss ss' : List Stmt) :
    Stmt.laterAll k (ss ++ ss') = Stmt.laterAll k ss ++ Stmt.laterAll k ss' := by
  induction ss with
  | nil => rfl
  | cons s ss ih => exact congrArg (s.later k :: ·) ih

theorem laterAll_toList (k : Nat) (s : Option Stmt) :
    (s.map (Stmt.later k)).toList = Stmt.laterAll k s.toList := by
  cases s <;> rfl

theorem outcome_declarationsFrom_end (none : s.ahead = []) (bound : Nat) :
    outcome (declarationsFrom declaration false bound) s = (.ok [], s) := by
  cases bound with
  | zero => rfl
  | succ bound => rw [outcome_declarationsFrom, if_pos none]

theorem outcome_declarationWith {nested : ParseM Stmt} {body : ParseM (List Stmt)} {bound : Nat}
    {t : Token} {ts : List Token} (ahead : s.ahead = t :: ts)
    (starts : t.kind ∈ [.forWord, .ifWord, .printWord, .returnWord, .whileWord, .leftBrace]) :
    outcome (declarationWith nested body bound) s =
      outcome (statementWith nested body bound) s := by
  have apart : ∀ k ∈ [Kind.forWord, .ifWord, .printWord, .returnWord, .whileWord, .leftBrace],
      k ∉ [Kind.classWord, .funWord, .varWord] := by decide
  have other : outcome (acceptAny [.classWord, .funWord, .varWord]) s = (.ok none, s) := by
    refine acceptAny_other fun u hu => ?_
    rw [ahead] at hu
    obtain rfl := Option.some.inj hu
    exact apart _ starts
  rw [declarationWith, outcome_bind, other]

theorem declarationsFrom_at_end {c : Nat} {ss : List Stmt}
    (run : outcome (declarationsFrom declaration false c) s = (.ok ss, s')) (none : s.ahead = []) :
    ss = [] ∧ s' = s := by
  rw [outcome_declarationsFrom_end none] at run
  simpa [eq_comm] using run

theorem declarationsFrom_in_turn {q : Sequel} {b c : Nat} {ss : List Stmt}
    (h : Carries q b .anywhere 1 (Option.map (Stmt.later q.lines)) declaration declaration')
    (run : outcome (declarationsFrom declaration false (c + 1)) s = (.ok ss, s'))
    (same : s'.errors = s.errors) (some : s.ahead ≠ []) (le : c ≤ b) :
    ∃ first s₁ others, (outcome declaration s = (.ok first, s₁) ∧ s₁.errors = s.errors ∧
      s₁.ahead.length + 1 ≤ s.ahead.length) ∧
      (outcome (declarationsFrom declaration false c) s₁ = (.ok others, s') ∧
        s'.errors = s₁.errors) ∧ ss = first.toList ++ others := by
  rw [outcome_declarationsFrom, if_neg some] at run
  have rest := carries_declarationsFrom h false le (Nat.le_refl c)
  have front (first : Option Stmt) :=
    rest.takes.bind fun others => Yields.pure (first.toList ++ others)
  obtain ⟨first, s₁, run₁, same₁, run₂, same₂⟩ :=
    outcome_bind_ok h.takes.errors (fun first => (front first).errors) run same
  obtain ⟨others, s₂, run₃, same₃, run₄, _⟩ := outcome_bind_ok rest.takes.errors
    (fun others => (Yields.pure (first.toList ++ others)).errors) run₂ same₂
  obtain ⟨rfl, rfl⟩ : ss = first.toList ++ others ∧ s' = s₂ := by
    rw [outcome_pure] at run₄
    simpa [eq_comm] using run₄
  exact ⟨first, s₁, others, ⟨run₁, same₁, h.takes.result run₁ same₁⟩, ⟨run₃, same₃⟩, rfl⟩

private theorem declarationsFrom_before_end {q : Sequel} {c c' : Nat} {ss : List Stmt}
    (run : outcome (declarationsFrom declaration false c) s = (.ok ss, s')) (none : s.ahead = [])
    (wide : s.ahead.length + q.tokens.length ≤ c') :
    s'.ahead = [] ∧ ∃ c'', q.tokens.length ≤ c'' ∧
      outcome (declarationsFrom declaration' false c') (q.before s) =
        outcome ((Stmt.laterAll q.lines ss ++ ·) <$> declarationsFrom declaration' false c'')
          (q.before s') := by
  obtain ⟨rfl, rfl⟩ := declarationsFrom_at_end run none
  refine ⟨none, c', Nat.le_trans (Nat.le_add_left _ _) wide, ?_⟩
  rw [outcome_map]
  rcases outcome (declarationsFrom declaration' false c') (q.before s') with ⟨_ | ss, t⟩ <;> rfl

private theorem declarationsFrom_before {q : Sequel} {b c c' : Nat} {ss : List Stmt}
    (h : Carries q b .anywhere 1 (Option.map (Stmt.later q.lines)) declaration declaration')
    (run : outcome (declarationsFrom declaration false c) s = (.ok ss, s'))
    (same : s'.errors = s.errors) (few : s.ahead.length ≤ c) (le : c ≤ b)
    (wide : s.ahead.length + q.tokens.length ≤ c') :
    s'.ahead = [] ∧ ∃ c'', q.tokens.length ≤ c'' ∧
      outcome (declarationsFrom declaration' false c') (q.before s) =
        outcome ((Stmt.laterAll q.lines ss ++ ·) <$> declarationsFrom declaration' false c'')
          (q.before s') := by
  induction c generalizing s c' ss with
  | zero =>
    exact declarationsFrom_before_end run (List.length_eq_zero_iff.mp (Nat.le_zero.mp few)) wide
  | succ c ih =>
    by_cases none : s.ahead = []
    · exact declarationsFrom_before_end run none wide
    · have le' := Nat.le_of_succ_le le
      obtain ⟨first, s₁, others, ⟨run₁, same₁, taken⟩, ⟨run₃, same₃⟩, rfl⟩ :=
        declarationsFrom_in_turn h run same none le'
      obtain ⟨c', rfl⟩ : ∃ c₀, c' = c₀ + 1 := ⟨c' - 1, by omega⟩
      have wide' : s₁.ahead.length + q.tokens.length ≤ c' := by omega
      obtain ⟨ended, c'', room, goOn⟩ := ih run₃ same₃ (by omega) le' wide'
      have ahead : (q.before s).ahead ≠ [] := by simp [Sequel.before, none]
      have first' := h.result run₁ same₁ (Nat.le_trans few le) trivial
      refine ⟨ended, c'', room, ?_⟩
      rw [outcome_declarationsFrom, if_neg ahead, outcome_bind, first']
      dsimp only
      rw [outcome_bind, goOn, outcome_map, outcome_map]
      rcases outcome (declarationsFrom declaration' false c'') (q.before s') with ⟨_ | last, t⟩
      · rfl
      · simp [Except.map, outcome_pure, laterAll_append, laterAll_toList]

end Parse

open Parse

/-- A program of one declaration, which is read up to the end of the tokens. -/
theorem parseProgram_single {labels : Labels} {t : Token} {ts : List Token} {lastLine : Nat}
    {s : Stmt} {state : ParseState}
    (run : outcome (declaration (t :: ts).length) (start labels (t :: ts) lastLine) =
      (.ok (some s), state)) (ended : state.ahead = []) (clean : state.errors = []) :
    parseProgram labels (t :: ts) lastLine = ⟨state.labels, .ok [s]⟩ := by
  have all : outcome (declarationsFrom (declaration (t :: ts).length) false (t :: ts).length)
      (start labels (t :: ts) lastLine) = (.ok [s], state) := by
    have some : (start labels (t :: ts) lastLine).ahead ≠ [] := List.cons_ne_nil _ _
    rw [List.length_cons, outcome_declarationsFrom, if_neg some, ← List.length_cons, outcome_bind,
      run]
    dsimp only
    rw [outcome_bind, outcome_declarationsFrom_end ended]
    rfl
  have result := parseProgram_ok_iff.mpr ⟨_, all, clean⟩
  have labels' := parseProgram_labels labels (t :: ts) lastLine
  rw [all] at labels'
  exact congrArg₂ Parsed.mk labels' result

private theorem parseProgram_head {labels : Labels} {tokens : List Token} {lastLine : Nat}
    {program : List Stmt} (h : (parseProgram labels tokens lastLine).result = .ok program) :
    ∀ t ∈ tokens.head?, t.kind ≠ .elseWord := by
  intro t ht
  have derivation : Grammar.Declarations .nearestIf tokens program [] := (parseProgram_sound h).1
  cases derivation with
  | nil => cases ht
  | cons first _ =>
    have other := first.starts.disjoint [.elseWord] (by decide) t ht
    exact fun same => other (List.mem_singleton.mpr same)

theorem parseProgram_join {labels : Labels} {ts₁ ts₂ : List Token} {line₁ line₂ : Nat}
    {p₁ p₂ : List Stmt} (first : (parseProgram labels ts₁ line₁).result = .ok p₁)
    (second : (parseProgram (parseProgram labels ts₁ line₁).labels ts₂ line₂).result = .ok p₂)
    (k line : Nat) :
    parseProgram labels (ts₁ ++ ts₂.map (Token.later k)) line =
      ⟨(parseProgram (parseProgram labels ts₁ line₁).labels ts₂ line₂).labels,
        .ok (p₁ ++ Stmt.laterAll k p₂)⟩ := by
  have head := parseProgram_head second
  obtain ⟨s₁, run₁, none₁⟩ := parseProgram_ok_iff.mp first
  obtain ⟨s₂, run₂, none₂⟩ := parseProgram_ok_iff.mp second
  have labels₁ : (parseProgram labels ts₁ line₁).labels = s₁.labels := by
    rw [parseProgram_labels, run₁]
  have labels₂ : (parseProgram (parseProgram labels ts₁ line₁).labels ts₂ line₂).labels =
      s₂.labels := by
    rw [parseProgram_labels, run₂]
  generalize tokens : ts₁ ++ ts₂.map (Token.later k) = ts
  have length : ts.length = ts₁.length + ts₂.length := by simp [← tokens]
  -- The first program stays where it is, before the second; that one stands further down.
  let q₁ : Sequel := ⟨0, ts₂.map (Token.later k), line⟩
  let q₂ : Sequel := ⟨k, [], line⟩
  have apart₁ : ∀ t ∈ q₁.tokens.head?, t.kind ≠ .elseWord := by
    intro t ht
    simp only [q₁, List.head?_map, Option.mem_def, Option.map_eq_some_iff] at ht
    obtain ⟨u, hu, rfl⟩ := ht
    exact head u hu
  have carried₁ := (carries_statement_declaration apart₁
    (show ts₁.length ≤ ts.length by omega)).2
  have carried₂ := (carries_statement_declaration (q := q₂) (by simp [q₂])
    (show ts₂.length ≤ ts.length by omega)).2
  obtain ⟨end₁, c, room, goOn₁⟩ := declarationsFrom_before carried₁ run₁ none₁ (Nat.le_refl _)
    (Nat.le_refl _) (show ts₁.length + (ts₂.map (Token.later k)).length ≤ ts.length by simp [length])
  obtain ⟨end₂, c', _, goOn₂⟩ := declarationsFrom_before carried₂ run₂ none₂ (Nat.le_refl _)
    (Nat.le_refl _) (show ts₂.length + 0 ≤ c by simpa [q₁] using room)
  have start₁ : q₁.before (start labels ts₁ line₁) = start labels ts line := by
    simp only [q₁, Sequel.before, start, Token.later_zero_eq_id, List.map_id, tokens]
  have start₂ : q₁.before s₁ = q₂.before (start (parseProgram labels ts₁ line₁).labels ts₂ line₂) := by
    rw [labels₁]
    simp only [q₁, q₂, Sequel.before, start, end₁, none₁, List.map_nil, List.nil_append,
      List.append_nil]
  have none : (q₂.before s₂).ahead = [] := by simp [q₂, Sequel.before, end₂]
  have whole : outcome (declarationsFrom (declaration ts.length) false ts.length)
      (start labels ts line) = (.ok (p₁ ++ Stmt.laterAll k p₂), q₂.before s₂) := by
    rw [← start₁, goOn₁, outcome_map, start₂, goOn₂, outcome_map,
      outcome_declarationsFrom_end none]
    simp [q₁, q₂, Except.map, Stmt.laterAll_zero]
  have result := parseProgram_ok_iff.mpr ⟨_, whole, none₂⟩
  have labels := parseProgram_labels labels ts line
  rw [whole] at labels
  rw [labels₂]
  exact congrArg₂ Parsed.mk labels result

end LoxLang
