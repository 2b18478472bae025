import LoxLang.Proofs.LaterLines
import LoxLang.Proofs.ParserLogic

/-!
Rules before further tokens.  A rule that ends well, without a note, has looked at its own tokens
and at the one behind them at most.  So it does the same where its tokens stand further down and
other tokens follow them, provided that it does not stop at what was the end, or that what follows
there is nothing it would have gone on with.
-/

set_option autoImplicit false
set_option relaxedAutoImplicit false

namespace LoxLang

namespace Parse

/-- What is different in a longer text: how many lines further down some tokens stand, which tokens
follow them, and the line of the mark behind all. -/
structure Sequel where
  lines : Nat
  tokens : List Token
  lastLine : Nat

def Sequel.before (q : Sequel) (s : ParseState) : ParseState :=
  { s with ahead := s.ahead.map (Token.later q.lines) ++ q.tokens, lastLine := q.lastLine }

/-- Where a rule may stop: before tokens of its own text, or anywhere. -/
inductive Stop where
  | inside
  | anywhere

def Stop.Allows (q : Sequel) : Stop → List Token → Prop
  | inside, rest => rest ≠ [] ∨ q.tokens = []
  | anywhere, _ => True

def Takes {α : Type} (count : Nat) (s : ParseState) (_ : α) (s' : ParseState) : Prop :=
  s'.ahead.length + count ≤ s.ahead.length

/-- With at most `n` tokens ahead, the second rule does in the longer text what the first one does
in its own, if that ends well where it may stop.  Results are carried over by `f`, and the first
rule takes at least `count` tokens. -/
structure Carries {α β : Type} (q : Sequel) (n : Nat) (stop : Stop) (count : Nat) (f : α → β)
    (rule : ParseM α) (rule' : ParseM β) : Prop where
  takes : Yields rule (Takes count)
  result : ∀ {s a s'}, outcome rule s = (.ok a, s') → s'.errors = s.errors →
    s.ahead.length ≤ n → stop.Allows q s'.ahead →
    outcome rule' (q.before s) = (.ok (f a), q.before s')

namespace Carries

variable {α α' β β' : Type} {q : Sequel} {n m d e : Nat} {x y : Stop} {f : α → α'} {g : β → β'}

/-- A rule that may stop anywhere may stop before tokens of its own text, and so on. -/
theorem mono {rule : ParseM α} {rule' : ParseM α'} (h : Carries q n x d f rule rule') (le : m ≤ n)
    (fewer : e ≤ d) (within : x = .anywhere ∨ x = y) : Carries q m y e f rule rule' where
  takes := h.takes.mono fun _ _ _ taken => Nat.le_trans (Nat.add_le_add_left fewer _) taken
  result run same few allowed := by
    refine h.result run same (Nat.le_trans few le) ?_
    rcases within with rfl | rfl
    · trivial
    · exact allowed

theorem fewer {rule : ParseM α} {rule' : ParseM α'} (h : Carries q n x d f rule rule')
    (le : m ≤ n) : Carries q m x d f rule rule' :=
  h.mono le (Nat.le_refl _) (.inr rfl)

theorem absurd {rule : ParseM α} {rule' : ParseM α'}
    (never : Yields rule fun _ _ _ => False) : Carries q n x d f rule rule' where
  takes := never.mono fun _ _ _ h => h.elim
  result run same _ _ := (never.result run same).elim

theorem inside {rule : ParseM α} {rule' : ParseM α'} (h : Carries q n x d f rule rule') :
    Carries q n .inside d f rule rule' := by
  refine h.mono (Nat.le_refl _) (Nat.le_refl _) ?_
  cases x with
  | inside => exact .inr rfl
  | anywhere => exact .inl rfl

theorem fail {expected : Expected} {rule' : ParseM α'} :
    Carries q n x d f (Parse.fail expected) rule' :=
  absurd (.fail _)

theorem pure {a : α} {a' : α'} (h : a' = f a) : Carries q n x 0 f (pure a) (pure a') where
  takes := (Yields.pure a).mono fun _ _ _ h => Nat.le_of_eq (congrArg (·.ahead.length) h.2)
  result run _ _ _ := by
    rw [outcome_pure] at run
    injection run with hr hs
    injection hr with hr
    subst h hr hs
    rfl

theorem bind {rule : ParseM α} {rule' : ParseM α'} {next : α → ParseM β} {next' : α' → ParseM β'}
    (first : Carries q n x d f rule rule')
    (second : ∀ a, Carries q m y e g (next a) (next' (f a))) (le : n ≤ m + d)
    (safe : x = .anywhere ∨ y = .inside ∨ 0 < e) :
    Carries q n y (d + e) g (rule >>= next) (rule' >>= next') where
  takes := (first.takes.bind fun a => (second a).takes).mono fun s b s'' h => by
    obtain ⟨a, s', taken, taken'⟩ := h
    unfold Takes at *
    omega
  result {s b s''} run same few allowed := by
    obtain ⟨a, s', run₁, same₁, run₂, same₂⟩ :=
      outcome_bind_ok first.takes.errors (fun a => (second a).takes.errors) run same
    have taken₁ : s'.ahead.length + d ≤ s.ahead.length := first.takes.result run₁ same₁
    have taken₂ : s''.ahead.length + e ≤ s'.ahead.length := (second a).takes.result run₂ same₂
    have between : x.Allows q s'.ahead := by
      cases x with
      | anywhere => trivial
      | inside =>
        have left : s'.ahead = [] → s''.ahead = [] ∧ e = 0 := fun none => by
          rw [none, List.length_nil] at taken₂
          exact ⟨List.length_eq_zero_iff.mp (by omega), by omega⟩
        rcases safe with h | rfl | taking
        · cases h
        · exact allowed.imp (fun some none => some (left none).1) id
        · exact .inl fun none => Nat.ne_of_gt taking (left none).2
    have first' := first.result run₁ same₁ few between
    have second' := (second a).result run₂ same₂ (by omega) allowed
    rw [outcome_bind, first']
    exact second'

theorem then_inside {rule : ParseM α} {rule' : ParseM α'} {next : α → ParseM β}
    {next' : α' → ParseM β'} (first : Carries q n x d f rule rule')
    (second : ∀ a, Carries q n .inside 0 g (next a) (next' (f a))) :
    Carries q n .inside 0 g (rule >>= next) (rule' >>= next') :=
  (first.bind second (Nat.le_add_right _ _) (.inr (.inl rfl))).mono (Nat.le_refl _)
    (Nat.zero_le _) (.inr rfl)

theorem then_alike {rule : ParseM α} {rule' : ParseM α'} {next : α → ParseM β}
    {next' : α' → ParseM β'} (first : Carries q n x d f rule rule')
    (second : ∀ a, Carries q n x 0 g (next a) (next' (f a))) :
    Carries q n x 0 g (rule >>= next) (rule' >>= next') := by
  refine (first.bind second (Nat.le_add_right _ _) ?_).mono (Nat.le_refl _) (Nat.zero_le _) (.inr rfl)
  cases x with
  | inside => exact .inr (.inl rfl)
  | anywhere => exact .inl rfl

theorem then_fewer {rule : ParseM α} {rule' : ParseM α'} {next : α → ParseM β}
    {next' : α' → ParseM β'} (first : Carries q n x 1 f rule rule') (le : n ≤ m + 1)
    (second : ∀ a, Carries q m .inside 0 g (next a) (next' (f a))) :
    Carries q n .inside 0 g (rule >>= next) (rule' >>= next') :=
  (first.bind second le (.inr (.inl rfl))).mono (Nat.le_refl _) (Nat.zero_le _) (.inr rfl)

theorem then_takes {rule : ParseM α} {rule' : ParseM α'} {next : α → ParseM β}
    {next' : α' → ParseM β'} (first : Carries q n x d f rule rule')
    (second : ∀ a, Carries q n y 1 g (next a) (next' (f a))) :
    Carries q n y 1 g (rule >>= next) (rule' >>= next') :=
  (first.bind second (Nat.le_add_right _ _) (.inr (.inr Nat.one_pos))).mono (Nat.le_refl _)
    (Nat.le_add_left _ _) (.inr rfl)

theorem andThen {rule : ParseM α} {rule' : ParseM α'} {next : α → ParseM β} {next' : α' → ParseM β'}
    (first : Carries q n .anywhere d f rule rule')
    (second : ∀ a, Carries q n y e g (next a) (next' (f a))) :
    Carries q n y d g (rule >>= next) (rule' >>= next') :=
  (first.bind second (Nat.le_add_right _ _) (.inl rfl)).mono (Nat.le_refl _)
    (Nat.le_add_right _ _) (.inr rfl)

theorem map {rule : ParseM α} {rule' : ParseM α'} {h : α → β} {h' : α' → β'}
    (first : Carries q n x d f rule rule') (commute : ∀ a, h' (f a) = g (h a)) :
    Carries q n x d g (h <$> rule) (h' <$> rule') where
  takes := first.takes.map.mono fun _ _ _ ⟨_, _, taken⟩ => taken
  result {s b s'} run same few allowed := by
    rw [outcome_map] at run
    rcases hr : outcome rule s with ⟨_ | a, t⟩
    · rw [hr] at run
      simp [Except.map] at run
    · rw [hr] at run
      simp only [Except.map, Prod.mk.injEq, Except.ok.injEq] at run
      obtain ⟨rfl, rfl⟩ := run
      rw [outcome_map, first.result hr same few allowed]
      simp only [Except.map, commute]

theorem choice {kinds : List Kind} {next : Option Token → ParseM β}
    {next' : Option Token → ParseM β'} (without : Carries q n x d g (next none) (next' none))
    (behind : ∀ t, Carries q (n - 1) x (d - 1) g (next (some t))
      (next' (some (t.later q.lines))))
    (safe : x = .inside ∨ 0 < d ∨ ∀ t ∈ q.tokens.head?, t.kind ∉ kinds) :
    Carries q n x d g (acceptAny kinds >>= next) (acceptAny kinds >>= next') where
  takes := by
    refine .choice (without.takes.mono fun _ _ _ taken _ => taken) fun t _ =>
      (behind t).takes.mono fun s _ s' taken => ?_
    unfold Takes at *
    rw [List.length_cons]
    omega
  result {s b s'} run same few allowed := by
    rcases choose kinds s next with ⟨t, ts, ahead, member, taken⟩ | ⟨other, nothing⟩
    · rw [taken] at run
      have longer : (q.before s).ahead =
          t.later q.lines :: (q.before { s with ahead := ts }).ahead := by
        rw [Sequel.before, ahead]
        rfl
      have fewer : ts.length ≤ n - 1 := by
        rw [ahead, List.length_cons] at few
        omega
      rw [outcome_choice_some longer member]
      exact (behind t).result run same fewer allowed
    · rw [nothing] at run
      have longer : ∀ t ∈ (q.before s).ahead.head?, t.kind ∉ kinds := by
        cases ahead : s.ahead with
        | cons u us =>
          rw [Sequel.before, ahead]
          rintro _ ⟨⟩
          exact other u (by rw [ahead]; rfl)
        | nil =>
          -- At the end of its text the rule looks at what follows.  Behind an inner rule that is
          -- nothing, a rule that takes a token does not end there, or it is a token of another kind.
          have end_of_text : (q.before s).ahead = q.tokens := by
            rw [Sequel.before, ahead]
            rfl
          have taken : s'.ahead.length + d ≤ s.ahead.length := without.takes.result run same
          rw [ahead, List.length_nil] at taken
          rw [end_of_text]
          rcases safe with rfl | taking | apart
          · have stopped : s'.ahead = [] := List.length_eq_zero_iff.mp (by omega)
            rw [allowed.resolve_left fun some => some stopped]
            exact nofun
          · omega
          · exact apart
      rw [outcome_choice_none longer]
      exact without.result run same few allowed

theorem expect (kind : Kind) (expected : Expected) :
    Carries q n .anywhere 1 (Token.later q.lines) (Parse.expect kind expected)
      (Parse.expect kind expected) :=
  choice fail (fun _ => pure rfl) (.inr (.inl Nat.one_pos))

theorem check (kind : Kind) : Carries q n .inside 0 id (Parse.check kind) (Parse.check kind) where
  takes := (Yields.check kind).mono fun _ _ _ h => Nat.le_of_eq (congrArg (·.ahead.length) h.1)
  result {s b s'} run _ _ allowed := by
    rw [outcome_check] at run ⊢
    simp only [Prod.mk.injEq, Except.ok.injEq] at run
    obtain ⟨rfl, rfl⟩ := run
    cases ahead : s.ahead with
    | nil =>
      rw [ahead] at allowed
      have none : q.tokens = [] := allowed.resolve_left fun some => some rfl
      simp [Sequel.before, ahead, none]
    | cons u us => simp [Sequel.before, ahead, Token.later]

theorem atEnd : Carries q n .inside 0 id Parse.atEnd Parse.atEnd where
  takes := Yields.atEnd.mono fun _ _ _ h => Nat.le_of_eq (congrArg (·.ahead.length) h.1)
  result {s b s'} run _ _ allowed := by
    rw [outcome_atEnd] at run ⊢
    simp only [Prod.mk.injEq, Except.ok.injEq] at run
    obtain ⟨rfl, rfl⟩ := run
    cases ahead : s.ahead with
    | nil =>
      rw [ahead] at allowed
      have none : q.tokens = [] := allowed.resolve_left fun some => some rfl
      simp [Sequel.before, ahead, none]
    | cons u us => simp [Sequel.before, ahead]

theorem freshExpr : Carries q n .anywhere 0 id Parse.freshExpr Parse.freshExpr where
  takes := Yields.freshExpr.mono fun _ _ _ h => Nat.le_of_eq (congrArg List.length h.1)
  result run _ _ _ := by
    rw [outcome_freshExpr] at run ⊢
    simp only [Prod.mk.injEq, Except.ok.injEq] at run
    obtain ⟨rfl, rfl⟩ := run
    rfl

theorem freshSite : Carries q n .anywhere 0 id Parse.freshSite Parse.freshSite where
  takes := Yields.freshSite.mono fun _ _ _ h => Nat.le_of_eq (congrArg List.length h.1)
  result run _ _ _ := by
    rw [outcome_freshSite] at run ⊢
    simp only [Prod.mk.injEq, Except.ok.injEq] at run
    obtain ⟨rfl, rfl⟩ := run
    rfl

theorem recovering {rule : ParseM Stmt} {rule' : ParseM Stmt} {f : Stmt → Stmt}
    (h : Carries q n x d f rule rule') :
    Carries q n x d (Option.map f) (Parse.recovering rule) (Parse.recovering rule') where
  takes := h.takes.recovering.mono fun _ _ _ ⟨_, _, taken⟩ => taken
  result {s r s'} run same few allowed := by
    obtain ⟨a, rfl, ⟨ok, same'⟩⟩ : ∃ a, r = some a ∧ outcome rule s = (.ok a, s') ∧
        s'.errors = s.errors := by
      rw [outcome_recovering] at run
      rcases hr : outcome rule s with ⟨o, t⟩
      rw [hr] at run
      cases o with
      | ok a =>
        simp only [Prod.mk.injEq, Except.ok.injEq] at run
        obtain ⟨rfl, rfl⟩ := run
        exact ⟨a, rfl, rfl, same⟩
      | error e =>
        have grown := (h.takes.errors s).length_le
        simp only [Prod.mk.injEq, Except.ok.injEq] at run
        obtain ⟨_, rfl⟩ := run
        have length := congrArg List.length same
        rw [hr] at grown
        simp only [List.length_append, List.length_singleton] at length grown
        omega
    rw [outcome_recovering, h.result ok same' few allowed]
    rfl

end Carries

end Parse

end LoxLang
