import LoxLang.Proofs.Numbering

/-!
Reasoning about rules.  A rule notes errors and hands out numbers, and never takes either back; a
rule that ends well without having noted anything relates the state before to its result and to
the state behind.  Both facts are kept by sequencing, so each rule's are those of its steps.
-/

set_option autoImplicit false
set_option relaxedAutoImplicit false

namespace LoxLang

namespace Parse

variable {α β : Type}

/-- What a rule does to a state. -/
def outcome (rule : ParseM α) (s : ParseState) : Except SyntaxError α × ParseState :=
  (ExceptT.run rule).run s

theorem outcome_pure (a : α) (s : ParseState) : outcome (pure a) s = (.ok a, s) := rfl

theorem outcome_bind (rule : ParseM α) (next : α → ParseM β) (s : ParseState) :
    outcome (rule >>= next) s =
      match outcome rule s with
      | (.ok a, s') => outcome (next a) s'
      | (.error e, s') => (.error e, s') := by
  unfold outcome
  simp only [bind, ExceptT.bind, ExceptT.mk, ExceptT.run, StateT.run, StateT.bind]
  rcases rule s with ⟨r, s'⟩
  cases r <;> rfl

theorem outcome_map (f : α → β) (rule : ParseM α) (s : ParseState) :
    outcome (f <$> rule) s = ((outcome rule s).1.map f, (outcome rule s).2) := by
  unfold outcome
  simp only [Functor.map, ExceptT.map, ExceptT.mk, ExceptT.run, StateT.run, bind, StateT.bind]
  rcases rule s with ⟨r, s'⟩
  cases r <;> rfl

theorem outcome_get (s : ParseState) : outcome get s = (.ok s, s) := rfl

theorem outcome_set (s s' : ParseState) : outcome (set s') s = (.ok ⟨⟩, s') := rfl

theorem outcome_acceptAny (kinds : List Kind) (s : ParseState) :
    outcome (acceptAny kinds) s =
      match s.ahead with
      | [] => (.ok none, s)
      | t :: ahead => if t.kind ∈ kinds then (.ok (some t), { s with ahead }) else (.ok none, s) := by
  rcases s with ⟨ahead, lastLine, labels, errors⟩
  unfold acceptAny
  rw [outcome_bind, outcome_get]
  cases ahead with
  | nil => rfl
  | cons t ahead =>
    by_cases h : t.kind ∈ kinds
    · simp only [h, if_true, outcome_bind, outcome_set, outcome_pure]
    · simp only [h, if_false, outcome_pure]

theorem outcome_acceptAny_head {kinds : List Kind} {s : ParseState} {t : Token} {ts : List Token}
    (ahead : s.ahead = t :: ts) (member : t.kind ∈ kinds) :
    outcome (acceptAny kinds) s = (.ok (some t), { s with ahead := ts }) := by
  rw [outcome_acceptAny, ahead]
  exact if_pos member

theorem acceptAny_other {kinds : List Kind} {s : ParseState}
    (other : ∀ t ∈ s.ahead.head?, t.kind ∉ kinds) :
    outcome (acceptAny kinds) s = (.ok none, s) := by
  rw [outcome_acceptAny]
  cases ahead : s.ahead with
  | nil => rfl
  | cons t ts =>
    rw [ahead] at other
    simp only [if_neg (other t rfl)]

theorem outcome_choice_some {taken : List Kind} {next : Option Token → ParseM α}
    {s : ParseState} {t : Token} {ts : List Token} (ahead : s.ahead = t :: ts)
    (member : t.kind ∈ taken) :
    outcome (acceptAny taken >>= next) s = outcome (next (some t)) { s with ahead := ts } := by
  rw [outcome_bind, outcome_acceptAny_head ahead member]

theorem outcome_choice_none {taken : List Kind} {next : Option Token → ParseM α}
    {s : ParseState} (other : ∀ t ∈ s.ahead.head?, t.kind ∉ taken) :
    outcome (acceptAny taken >>= next) s = outcome (next none) s := by
  rw [outcome_bind, acceptAny_other other]

theorem choose (taken : List Kind) (s : ParseState) (next : Option Token → ParseM α) :
    (∃ t ts, s.ahead = t :: ts ∧ t.kind ∈ taken ∧
      outcome (acceptAny taken >>= next) s = outcome (next (some t)) { s with ahead := ts }) ∨
    ((∀ t ∈ s.ahead.head?, t.kind ∉ taken) ∧
      outcome (acceptAny taken >>= next) s = outcome (next none) s) := by
  cases ahead : s.ahead with
  | nil => exact .inr ⟨nofun, outcome_choice_none (by simp [ahead])⟩
  | cons t ts =>
    by_cases member : t.kind ∈ taken
    · exact .inl ⟨t, ts, rfl, member, outcome_choice_some ahead member⟩
    · refine .inr ⟨fun _ head => Option.some.inj head ▸ member, outcome_choice_none ?_⟩
      rw [ahead]
      exact fun _ head => Option.some.inj head ▸ member

theorem outcome_peek (s : ParseState) :
    outcome peek s = (.ok (s.ahead.head?.getD (.atEnd s.lastLine)), s) := rfl

theorem outcome_atEnd (s : ParseState) : outcome atEnd s = (.ok s.ahead.isEmpty, s) := rfl

theorem outcome_check (kind : Kind) (s : ParseState) :
    outcome (check kind) s = (.ok (s.ahead.head?.any (·.kind = kind)), s) := rfl

theorem outcome_report (e : SyntaxError) (s : ParseState) :
    outcome (report e) s = (.ok (), { s with errors := s.errors ++ [e] }) := rfl

theorem outcome_fail (expected : Expected) (s : ParseState) :
    outcome (fail expected : ParseM α) s =
      (.error ⟨s.ahead.head?.getD (.atEnd s.lastLine), .missing expected⟩, s) := rfl

theorem outcome_freshExpr (s : ParseState) :
    outcome freshExpr s =
      (.ok s.labels.expr, { s with labels := { s.labels with expr := s.labels.expr + 1 } }) := rfl

theorem outcome_freshSite (s : ParseState) :
    outcome freshSite s =
      (.ok s.labels.site, { s with labels := { s.labels with site := s.labels.site + 1 } }) := rfl

theorem outcome_recovering (rule : ParseM Stmt) (s : ParseState) :
    outcome (recovering rule) s =
      match outcome rule s with
      | (.ok a, s') => (.ok (some a), s')
      | (.error e, s') =>
        (.ok none, { s' with errors := s'.errors ++ [e], ahead := skipToBoundary s'.ahead }) := by
  have h := outcome_map some rule s
  unfold outcome at h ⊢
  simp only [recovering, tryCatch, tryCatchThe, MonadExceptOf.tryCatch, ExceptT.tryCatch,
    ExceptT.mk, ExceptT.run, StateT.run, bind, StateT.bind] at h ⊢
  rw [h]
  rcases rule s with ⟨r, s'⟩
  cases r <;> rfl

theorem outcome_bind_ok {rule : ParseM α} {next : α → ParseM β}
    (first : ∀ s, s.errors <+: (outcome rule s).2.errors)
    (second : ∀ a s, s.errors <+: (outcome (next a) s).2.errors) {s s'' : ParseState} {b : β}
    (run : outcome (rule >>= next) s = (.ok b, s'')) (same : s''.errors = s.errors) :
    ∃ a s', outcome rule s = (.ok a, s') ∧ s'.errors = s.errors ∧
      outcome (next a) s' = (.ok b, s'') ∧ s''.errors = s'.errors := by
  have before := first s
  rw [outcome_bind] at run
  rcases h : outcome rule s with ⟨r, s'⟩
  rw [h] at run before
  cases r with
  | error e => simp at run
  | ok a =>
    have behind := second a s'
    simp only at run before behind
    rw [run] at behind
    have between : s'.errors = s.errors := by
      have length := congrArg List.length same
      exact (before.eq_of_length (Nat.le_antisymm before.length_le
        (Nat.le_trans behind.length_le (Nat.le_of_eq length)))).symm
    exact ⟨a, s', rfl, between, run, same.trans between.symm⟩

/-- A rule neither takes back errors nor numbers; if it ends well and notes no error, the state
before, its result and the state behind are related. -/
structure Yields (rule : ParseM α) (Q : ParseState → α → ParseState → Prop) : Prop where
  errors : ∀ s, s.errors <+: (outcome rule s).2.errors
  labels : ∀ s, s.labels ≤ (outcome rule s).2.labels
  result : ∀ {s a s'}, outcome rule s = (.ok a, s') → s'.errors = s.errors → Q s a s'

namespace Yields

variable {rule : ParseM α} {Q Q' : ParseState → α → ParseState → Prop}

theorem mono (h : Yields rule Q) (weaken : ∀ s a s', Q s a s' → Q' s a s') : Yields rule Q' :=
  ⟨h.errors, h.labels, fun run same => weaken _ _ _ (h.result run same)⟩

theorem pure (a : α) : Yields (pure a) fun s b s' => b = a ∧ s' = s where
  errors s := List.prefix_rfl
  labels s := Labels.le_rfl
  result run _ := by
    rw [outcome_pure] at run
    injection run with hr hs
    injection hr with hr
    exact ⟨hr.symm, hs.symm⟩

theorem bind {next : α → ParseM β} {R : α → ParseState → β → ParseState → Prop}
    (first : Yields rule Q) (second : ∀ a, Yields (next a) (R a)) :
    Yields (rule >>= next) fun s b s'' => ∃ a s', Q s a s' ∧ R a s' b s'' where
  errors s := by
    have step := first.errors s
    rw [outcome_bind]
    rcases h : outcome rule s with ⟨r, s'⟩
    rw [h] at step
    cases r with
    | error e => exact step
    | ok a => exact step.trans ((second a).errors s')
  labels s := by
    have step := first.labels s
    rw [outcome_bind]
    rcases h : outcome rule s with ⟨r, s'⟩
    rw [h] at step
    cases r with
    | error e => exact step
    | ok a => exact Labels.le_trans step ((second a).labels s')
  result {s b s''} run same := by
    obtain ⟨a, s', run₁, same₁, run₂, same₂⟩ :=
      outcome_bind_ok first.errors (fun a => (second a).errors) run same
    exact ⟨a, s', first.result run₁ same₁, (second a).result run₂ same₂⟩

theorem map {f : α → β} (h : Yields rule Q) :
    Yields (f <$> rule) fun s b s' => ∃ a, b = f a ∧ Q s a s' where
  errors s := by
    rw [outcome_map]
    exact h.errors s
  labels s := by
    rw [outcome_map]
    exact h.labels s
  result {s b s'} run same := by
    rw [outcome_map] at run
    rcases hr : outcome rule s with ⟨r, t⟩
    rw [hr] at run
    cases r with
    | error e => simp [Except.map] at run
    | ok a =>
      simp only [Except.map, Prod.mk.injEq, Except.ok.injEq] at run
      obtain ⟨rfl, rfl⟩ := run
      exact ⟨a, rfl, h.result hr same⟩

theorem report (e : SyntaxError) : Yields (Parse.report e) fun _ _ _ => False where
  errors s := List.prefix_append _ _
  labels s := Labels.le_rfl
  result {s a s'} run same := by
    rw [outcome_report] at run
    injection run with _ hs
    subst hs
    simp at same

theorem fail (expected : Expected) : Yields
    (Parse.fail expected : ParseM α) fun _ _ _ => False where
  errors s := List.prefix_rfl
  labels s := Labels.le_rfl
  result run _ := by
    rw [outcome_fail] at run
    simp at run

theorem peek : Yields Parse.peek fun s _ s' => s' = s where
  errors s := List.prefix_rfl
  labels s := Labels.le_rfl
  result run _ := by
    rw [outcome_peek] at run
    injection run with _ hs
    exact hs.symm

theorem atEnd : Yields Parse.atEnd fun s b s' => s' = s ∧ (b = true ↔ s.ahead = []) where
  errors s := List.prefix_rfl
  labels s := Labels.le_rfl
  result run _ := by
    rw [outcome_atEnd] at run
    injection run with hr hs
    injection hr with hr
    subst hr
    exact ⟨hs.symm, List.isEmpty_iff⟩

theorem check (kind : Kind) : Yields (Parse.check kind) fun s b s' =>
    s' = s ∧ (b = true ↔ ∃ t ahead, s.ahead = t :: ahead ∧ t.kind = kind) where
  errors s := List.prefix_rfl
  labels s := Labels.le_rfl
  result {s b s'} run _ := by
    rw [outcome_check] at run
    injection run with hr hs
    injection hr with hr
    subst hr
    refine ⟨hs.symm, ?_⟩
    cases s.ahead with
    | nil => simp
    | cons t ahead => simp

/-- A rule that goes on in one way behind a token of some kinds, and in another way without one. -/
theorem choice {kinds : List Kind} {next : Option Token → ParseM β}
    {R : ParseState → β → ParseState → Prop}
    (without : Yields (next none) fun s b s' =>
      (∀ t ∈ s.ahead.head?, t.kind ∉ kinds) → R s b s')
    (behind : ∀ t, t.kind ∈ kinds →
      Yields (next (some t)) fun s b s' => R { s with ahead := t :: s.ahead } b s') :
    Yields (Parse.acceptAny kinds >>= next) R where
  errors s := by
    rcases choose kinds s next with ⟨t, ts, _, member, run⟩ | ⟨_, run⟩
    · exact run ▸ (behind t member).errors { s with ahead := ts }
    · exact run ▸ without.errors s
  labels s := by
    rcases choose kinds s next with ⟨t, ts, _, member, run⟩ | ⟨_, run⟩
    · exact run ▸ (behind t member).labels { s with ahead := ts }
    · exact run ▸ without.labels s
  result {s b s'} run same := by
    rcases choose kinds s next with ⟨t, ts, ahead, member, taken⟩ | ⟨other, nothing⟩
    · have read := (behind t member).result (taken.symm.trans run) same
      rw [← ahead] at read
      exact read
    · exact without.result (nothing.symm.trans run) same other

theorem expect (kind : Kind) (expected : Expected) : Yields (Parse.expect kind expected)
    fun s t s' => t.kind = kind ∧ s.ahead = t :: s'.ahead ∧ s'.labels = s.labels := by
  refine choice ((fail expected).mono fun _ _ _ h => h.elim) fun t member => (pure t).mono ?_
  rintro s _ _ ⟨rfl, rfl⟩
  exact ⟨List.mem_singleton.mp member, rfl, rfl⟩

theorem freshExpr : Yields Parse.freshExpr fun s id s' =>
    s'.ahead = s.ahead ∧ Numbered s.labels [.expr id] s'.labels where
  errors s := List.prefix_rfl
  labels s := ⟨Nat.le_succ _, Nat.le_refl _⟩
  result {s id s'} run _ := by
    rw [outcome_freshExpr] at run
    injection run with hr hs
    injection hr with hr
    subst hr hs
    refine ⟨rfl, ⟨Nat.le_succ _, Nat.le_refl _⟩, by simp, ?_⟩
    intro l hl
    rw [List.mem_singleton.mp hl]
    exact ⟨Nat.le_refl _, Nat.lt_succ_self _⟩

theorem freshSite : Yields Parse.freshSite fun s site s' =>
    s'.ahead = s.ahead ∧ Numbered s.labels [.site site] s'.labels where
  errors s := List.prefix_rfl
  labels s := ⟨Nat.le_refl _, Nat.le_succ _⟩
  result {s id s'} run _ := by
    rw [outcome_freshSite] at run
    injection run with hr hs
    injection hr with hr
    subst hr hs
    refine ⟨rfl, ⟨Nat.le_refl _, Nat.le_succ _⟩, by simp, ?_⟩
    intro l hl
    rw [List.mem_singleton.mp hl]
    exact ⟨Nat.le_refl _, Nat.lt_succ_self _⟩

theorem recovering {rule : ParseM Stmt} {Q : ParseState → Stmt → ParseState → Prop}
    (h : Yields rule Q) :
    Yields (Parse.recovering rule) fun s r s' => ∃ a, r = some a ∧ Q s a s' where
  errors s := by
    have step := h.errors s
    rw [outcome_recovering]
    rcases hr : outcome rule s with ⟨r, s'⟩
    rw [hr] at step
    cases r with
    | ok a => exact step
    | error e => exact step.trans (List.prefix_append _ _)
  labels s := by
    have step := h.labels s
    rw [outcome_recovering]
    rcases hr : outcome rule s with ⟨r, s'⟩
    rw [hr] at step
    cases r <;> exact step
  result {s r s'} run same := by
    have step := h.errors s
    rw [outcome_recovering] at run
    rcases hr : outcome rule s with ⟨o, t⟩
    rw [hr] at run step
    cases o with
    | ok a =>
      injection run with hr' hs
      injection hr' with hr'
      subst hr' hs
      exact ⟨a, rfl, h.result hr same⟩
    | error e =>
      injection run with _ hs
      subst hs
      have length := congrArg List.length same
      have atMost := step.length_le
      simp only [List.length_append, List.length_singleton] at length
      simp only at atMost
      omega

end Yields

def start (labels : Labels) (tokens : List Token) (lastLine : Nat) : ParseState :=
  ⟨tokens, lastLine, labels, []⟩

private theorem exists_clean_iff {α : Type} {ended : Except SyntaxError α × ParseState} {a : α} :
    (∃ state, ended = (.ok a, state) ∧ state.errors = []) ↔
      ended.1 = .ok a ∧ ended.2.errors = [] := by
  constructor
  · rintro ⟨state, rfl, clean⟩
    exact ⟨rfl, clean⟩
  · rintro ⟨read, clean⟩
    exact ⟨ended.2, Prod.ext read rfl, clean⟩

end Parse

open Parse

theorem parseProgram_labels (labels : Labels) (tokens : List Token) (lastLine : Nat) :
    (parseProgram labels tokens lastLine).labels =
      (outcome (declarationsFrom (declaration tokens.length) false tokens.length)
        (start labels tokens lastLine)).2.labels :=
  rfl

/-- A program parses when its declarations are read without an error. -/
theorem parseProgram_ok_iff {labels : Labels} {tokens : List Token} {lastLine : Nat}
    {program : List Stmt} :
    (parseProgram labels tokens lastLine).result = .ok program ↔ ∃ state,
      outcome (declarationsFrom (declaration tokens.length) false tokens.length)
        (start labels tokens lastLine) = (.ok program, state) ∧ state.errors = [] := by
  have run : runRule (declarationsFrom (declaration tokens.length) false tokens.length) labels
    tokens lastLine = outcome (declarationsFrom (declaration tokens.length) false tokens.length)
      (start labels tokens lastLine) := rfl
  rw [exists_clean_iff]
  simp only [parseProgram, run]
  rcases outcome (declarationsFrom (declaration tokens.length) false tokens.length)
    (start labels tokens lastLine) with ⟨_ | statements, state⟩
  · simp
  · cases state.errors <;> simp

theorem parseExpression_labels (labels : Labels) (tokens : List Token) (lastLine : Nat) :
    (parseExpression labels tokens lastLine).labels =
      (outcome (wholeExpression tokens.length) (start labels tokens lastLine)).2.labels :=
  rfl

theorem parseExpression_ok_iff {labels : Labels} {tokens : List Token} {lastLine : Nat}
    {e : Expr} :
    (parseExpression labels tokens lastLine).result = .ok e ↔ ∃ state,
      outcome (wholeExpression tokens.length) (start labels tokens lastLine) = (.ok e, state) ∧
        state.errors = [] := by
  have run : runRule (wholeExpression tokens.length) labels tokens lastLine =
    outcome (wholeExpression tokens.length) (start labels tokens lastLine) := rfl
  rw [exists_clean_iff]
  simp only [parseExpression, run]
  rcases outcome (wholeExpression tokens.length) (start labels tokens lastLine) with
    ⟨_ | e, state⟩
  · simp
  · cases state.errors <;> simp

end LoxLang
