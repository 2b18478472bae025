import LoxLang.Proofs.ParserLogic
import LoxLang.Proofs.RuleParts

/-!
How rules go forward.  However a rule ends, it takes tokens from the front and gives none back.  It
never looks behind the token at which it stops, so unless it comes to the end of its text it does the
same where other tokens follow.  Bounds on nested rules do not matter where they are as great as the
count of the tokens ahead: rules with greater bounds do the same.
-/

set_option autoImplicit false
set_option relaxedAutoImplicit false

namespace LoxLang

namespace Parse

/-- What stands around a text in a longer one: the errors that were noted before it, the tokens
behind it, and the line of the mark behind all. -/
structure Surrounding where
  errors : List SyntaxError
  tokens : List Token
  lastLine : Nat

namespace Surrounding

def around (q : Surrounding) (s : ParseState) : ParseState :=
  { s with ahead := s.ahead ++ q.tokens, lastLine := q.lastLine, errors := q.errors ++ s.errors }

def Hidden (q : Surrounding) (s : ParseState) : Prop :=
  s.ahead ≠ [] ∨ (q.tokens = [] ∧ q.lastLine = s.lastLine)

variable {q : Surrounding} {s : ParseState}

theorem ahead_around (q : Surrounding) {t : Token} {ts : List Token} (ahead : s.ahead = t :: ts) :
    (q.around s).ahead = t :: (ts ++ q.tokens) := by
  rw [around, ahead, List.cons_append]

private theorem Hidden.peek (h : q.Hidden s) :
    (q.around s).ahead.head?.getD (.atEnd q.lastLine) =
      s.ahead.head?.getD (.atEnd s.lastLine) := by
  rcases h with some | ⟨none, line⟩
  · obtain ⟨t, ts, ahead⟩ := List.exists_cons_of_ne_nil some
    simp [around, ahead]
  · simp [around, none, line]

theorem Hidden.head? (h : q.Hidden s) : (q.around s).ahead.head? = s.ahead.head? := by
  rcases h with some | ⟨none, _⟩
  · obtain ⟨t, ts, ahead⟩ := List.exists_cons_of_ne_nil some
    simp [around, ahead]
  · simp [around, none]

private theorem Hidden.isEmpty (h : q.Hidden s) : (q.around s).ahead.isEmpty = s.ahead.isEmpty := by
  rcases h with some | ⟨none, _⟩
  · obtain ⟨t, ts, ahead⟩ := List.exists_cons_of_ne_nil some
    simp [around, ahead]
  · simp [around, none]

end Surrounding

def TakesFrom (kinds : Kind → Prop) (count : Nat) (ahead rest : List Token) : Prop :=
  ∃ front, ahead = front ++ rest ∧ (∀ t ∈ front, kinds t.kind) ∧ count ≤ front.length

namespace TakesFrom

variable {kinds kinds' : Kind → Prop} {d e : Nat} {ts ts' rest : List Token}

private theorem refl : TakesFrom kinds 0 ts ts := ⟨[], rfl, nofun, Nat.le_refl _⟩

private theorem trans (h : TakesFrom kinds d ts ts') (h' : TakesFrom kinds e ts' rest) :
    TakesFrom kinds (d + e) ts rest := by
  obtain ⟨front, rfl, all, le⟩ := h
  obtain ⟨front', rfl, all', le'⟩ := h'
  refine ⟨front ++ front', (List.append_assoc ..).symm, ?_, ?_⟩
  · exact List.forall_mem_append.mpr ⟨all, all'⟩
  · rw [List.length_append]
    exact Nat.add_le_add le le'

private theorem mono (h : TakesFrom kinds d ts rest) (more : ∀ k, kinds k → kinds' k) (le : e ≤ d) :
    TakesFrom kinds' e ts rest := by
  obtain ⟨front, split, all, count⟩ := h
  exact ⟨front, split, fun t member => more _ (all t member), Nat.le_trans le count⟩

theorem length_le (h : TakesFrom kinds d ts rest) : rest.length + d ≤ ts.length := by
  obtain ⟨front, rfl, _, le⟩ := h
  rw [List.length_append, Nat.add_comm]
  exact Nat.add_le_add_right le _

theorem suffix (h : TakesFrom kinds d ts rest) : rest <:+ ts := by
  obtain ⟨front, rfl, _⟩ := h
  exact List.suffix_append _ _

private theorem ne_nil (h : TakesFrom kinds d ts rest) (some : rest ≠ []) : ts ≠ [] := by
  obtain ⟨front, rfl, _⟩ := h
  exact List.append_ne_nil_of_right_ne_nil _ some

end TakesFrom

/-- However the first rule ends from a state, it takes tokens of some kinds from the front, at least
a certain count of them if it gives a result; and with fewer than `n` tokens ahead the second rule
does the same, also in a longer text if the first one stops where what follows is hidden. -/
structure ProceedsAt {α : Type} (kinds : Kind → Prop) (n count : Nat) (rule rule' : ParseM α)
    (s : ParseState) : Prop where
  takes : TakesFrom kinds 0 s.ahead (outcome rule s).2.ahead
  result : ∀ {a s'}, outcome rule s = (.ok a, s') → TakesFrom kinds count s.ahead s'.ahead
  line : (outcome rule s).2.lastLine = s.lastLine
  same : ∀ q : Surrounding, s.ahead.length < n → q.Hidden (outcome rule s).2 →
    outcome rule' (q.around s) = ((outcome rule s).1, q.around (outcome rule s).2)

def Proceeds {α : Type} (kinds : Kind → Prop) (n count : Nat) (rule rule' : ParseM α) : Prop :=
  ∀ s, ProceedsAt kinds n count rule rule' s

namespace ProceedsAt

variable {α β : Type} {kinds kinds' : Kind → Prop} {n m d e : Nat} {s : ParseState}

theorem mono {rule rule' : ParseM α} (h : ProceedsAt kinds n d rule rule' s)
    (more : ∀ k, kinds k → kinds' k) (le : m ≤ n) (fewer : e ≤ d) :
    ProceedsAt kinds' m e rule rule' s where
  takes := h.takes.mono more (Nat.le_refl _)
  result run := (h.result run).mono more fewer
  line := h.line
  same q few hidden := h.same q (Nat.lt_of_lt_of_le few le) hidden

private theorem hidden {rule rule' : ParseM α} (h : ProceedsAt kinds n d rule rule' s)
    {q : Surrounding} (hidden : q.Hidden (outcome rule s).2) : q.Hidden s :=
  hidden.imp h.takes.ne_nil fun ⟨nothing, line⟩ => ⟨nothing, line.trans h.line⟩

private theorem giving {rule rule' : ParseM α} {a : α} (run : outcome rule s = (.ok a, s))
    (run' : ∀ q : Surrounding, s.ahead.length < n → q.Hidden s →
      outcome rule' (q.around s) = (.ok a, q.around s)) :
    ProceedsAt kinds n 0 rule rule' s where
  takes := by
    rw [run]
    exact .refl
  result run₁ := by
    rw [run] at run₁
    obtain ⟨_, rfl⟩ := Prod.mk.inj run₁
    exact .refl
  line := by rw [run]
  same q few hidden := by
    rw [run] at hidden ⊢
    exact run' q few hidden

theorem failing {rule rule' : ParseM α} {e : SyntaxError} (run : outcome rule s = (.error e, s))
    (run' : ∀ q : Surrounding, s.ahead.length < n → q.Hidden s →
      outcome rule' (q.around s) = (.error e, q.around s)) :
    ProceedsAt kinds n d rule rule' s where
  takes := by
    rw [run]
    exact .refl
  result run₁ := by
    rw [run] at run₁
    cases (Prod.mk.inj run₁).1
  line := by rw [run]
  same q few hidden := by
    rw [run] at hidden ⊢
    exact run' q few hidden

theorem bind {rule rule' : ParseM α} {next next' : α → ParseM β}
    (first : ProceedsAt kinds n d rule rule' s)
    (second : ∀ a s', outcome rule s = (.ok a, s') →
      ProceedsAt kinds m e (next a) (next' a) s')
    (le : n ≤ m + d) : ProceedsAt kinds n (d + e) (rule >>= next) (rule' >>= next') s := by
  rcases run : outcome rule s with ⟨_ | a, s'⟩
  case error =>
    obtain ⟨takes, _, line, same⟩ := first
    rw [run] at takes line same
    constructor
    · rw [outcome_bind, run]
      exact takes
    · intro b s'' run'
      rw [outcome_bind, run] at run'
      cases (Prod.mk.inj run').1
    · rw [outcome_bind, run]
      exact line
    · intro q few hidden
      rw [outcome_bind, run] at hidden
      rw [outcome_bind, same q few hidden, outcome_bind, run]
  case ok =>
    have whole : outcome (rule >>= next) s = outcome (next a) s' := by rw [outcome_bind, run]
    have second := second a s' run
    have taken := first.result run
    have line := first.line
    rw [run] at line
    constructor
    · rw [whole]
      exact (taken.trans second.takes).mono (fun _ => id) (Nat.zero_le _)
    · intro b s'' run'
      rw [whole] at run'
      exact taken.trans (second.result run')
    · rw [whole, second.line, line]
    · intro q few hidden
      rw [whole] at hidden ⊢
      have same := first.same q few
      rw [run] at same
      rw [outcome_bind, same (second.hidden hidden)]
      have length := taken.length_le
      exact second.same q (by omega) hidden

end ProceedsAt

namespace Proceeds

variable {α β : Type} {kinds kinds' : Kind → Prop} {n m d e : Nat}

theorem mono {rule rule' : ParseM α} (h : Proceeds kinds n d rule rule')
    (more : ∀ k, kinds k → kinds' k) (le : m ≤ n) (fewer : e ≤ d) :
    Proceeds kinds' m e rule rule' :=
  fun s => (h s).mono more le fewer

theorem fewer {rule rule' : ParseM α} (h : Proceeds kinds n d rule rule') (le : m ≤ n) :
    Proceeds kinds m d rule rule' :=
  h.mono (fun _ => id) le (Nat.le_refl _)

theorem uncounted {rule rule' : ParseM α} (h : Proceeds kinds n d rule rule') :
    Proceeds kinds n 0 rule rule' :=
  h.mono (fun _ => id) (Nat.le_refl _) (Nat.zero_le _)

theorem pure (a : α) : Proceeds kinds n 0 (pure a) (pure a) :=
  fun _ => .giving rfl fun _ _ _ => rfl

theorem fail (expected : Expected) :
    Proceeds kinds n d (Parse.fail expected : ParseM α) (Parse.fail expected) :=
  fun s => .failing (outcome_fail expected s) fun q _ hidden => by
    rw [outcome_fail]
    exact congrArg (fun t => (Except.error (SyntaxError.mk t _), q.around s)) hidden.peek

theorem stops {a : α} {rule' : ParseM α}
    (run' : ∀ s : ParseState, s.ahead = [] → outcome rule' s = (.ok a, s)) :
    Proceeds kinds 1 0 (Pure.pure a) rule' :=
  fun s => .giving rfl fun q few hidden => run' _ <| by
    have none : s.ahead = [] := List.length_eq_zero_iff.mp (Nat.lt_one_iff.mp few)
    have nothing : q.tokens = [] := (hidden.resolve_left fun some => some none).1
    simp [Surrounding.around, none, nothing]

theorem stuck {expected : Expected} {rule' : ParseM α}
    (run' : ∀ s : ParseState, s.ahead = [] →
      outcome rule' s = outcome (Parse.fail expected) s) :
    Proceeds kinds 1 d (Parse.fail expected) rule' :=
  fun s => .failing (outcome_fail expected s) fun q few hidden => by
    have none : s.ahead = [] := List.length_eq_zero_iff.mp (Nat.lt_one_iff.mp few)
    have nothing : q.tokens = [] := (hidden.resolve_left fun some => some none).1
    rw [run' _ (by simp [Surrounding.around, none, nothing]), outcome_fail]
    exact congrArg (fun t => (Except.error (SyntaxError.mk t _), q.around s)) hidden.peek

private theorem bind {rule rule' : ParseM α} {next next' : α → ParseM β}
    (first : Proceeds kinds n d rule rule') (second : ∀ a, Proceeds kinds m e (next a) (next' a))
    (le : n ≤ m + d) : Proceeds kinds n (d + e) (rule >>= next) (rule' >>= next') :=
  fun s => (first s).bind (fun a s' _ => second a s') le

/-- What follows a rule that may take nothing. -/
theorem andThen {rule rule' : ParseM α} {next next' : α → ParseM β}
    (first : Proceeds kinds n d rule rule') (second : ∀ a, Proceeds kinds n e (next a) (next' a)) :
    Proceeds kinds n d (rule >>= next) (rule' >>= next') :=
  (first.bind second (Nat.le_add_right _ _)).mono (fun _ => id) (Nat.le_refl _)
    (Nat.le_add_right _ _)

theorem thenTakes {rule rule' : ParseM α} {next next' : α → ParseM β}
    (first : Proceeds kinds n d rule rule') (second : ∀ a, Proceeds kinds n e (next a) (next' a)) :
    Proceeds kinds n e (rule >>= next) (rule' >>= next') :=
  (first.bind second (Nat.le_add_right _ _)).mono (fun _ => id) (Nat.le_refl _)
    (Nat.le_add_left _ _)

theorem thenFewer {rule rule' : ParseM α} {next next' : α → ParseM β}
    (first : Proceeds kinds n 1 rule rule') (le : n ≤ m + 1)
    (second : ∀ a, Proceeds kinds m e (next a) (next' a)) :
    Proceeds kinds n 1 (rule >>= next) (rule' >>= next') :=
  (first.bind second le).mono (fun _ => id) (Nat.le_refl _) (Nat.le_add_right _ _)

theorem map {rule rule' : ParseM α} (f : α → β) (h : Proceeds kinds n d rule rule') :
    Proceeds kinds n d (f <$> rule) (f <$> rule') := by
  intro s
  constructor
  · rw [outcome_map]
    exact (h s).takes
  · intro b s' run
    rw [outcome_map] at run
    rcases hr : outcome rule s with ⟨_ | a, t⟩
    · rw [hr] at run
      cases (Prod.mk.inj run).1
    · rw [hr] at run
      obtain ⟨_, rfl⟩ := Prod.mk.inj run
      exact (h s).result hr
  · rw [outcome_map]
    exact (h s).line
  · intro q few hidden
    rw [outcome_map] at hidden ⊢
    rw [outcome_map, (h s).same q few hidden]

theorem choice {taken : List Kind} {next next' : Option Token → ParseM β}
    (among : ∀ k ∈ taken, kinds k) (without : Proceeds kinds n d (next none) (next' none))
    (behind : ∀ t, Proceeds kinds (n - 1) (d - 1) (next (some t)) (next' (some t))) :
    Proceeds kinds n d (acceptAny taken >>= next) (acceptAny taken >>= next') := by
  intro s
  rcases choose taken s next with ⟨t, ts, ahead, member, run⟩ | ⟨other, run⟩
  case inl =>
    have step : TakesFrom kinds 1 (t :: ts) ts :=
      ⟨[t], rfl, fun u hu => List.mem_singleton.mp hu ▸ among _ member, Nat.le_refl _⟩
    have rest := behind t { s with ahead := ts }
    constructor
    · rw [run, ahead]
      exact (step.trans rest.takes).mono (fun _ => id) (Nat.zero_le _)
    · intro b s'' run'
      rw [run] at run'
      rw [ahead]
      exact (step.trans (rest.result run')).mono (fun _ => id) (by omega)
    · rw [run, rest.line]
    · intro q few hidden
      rw [run] at hidden ⊢
      rw [outcome_choice_some (q.ahead_around ahead) member]
      refine rest.same q ?_ hidden
      rw [ahead, List.length_cons] at few
      exact Nat.lt_sub_of_add_lt few
  case inr =>
    have rest := without s
    constructor
    · rw [run]
      exact rest.takes
    · intro b s'' run'
      rw [run] at run'
      exact rest.result run'
    · rw [run, rest.line]
    · intro q few hidden
      rw [run] at hidden ⊢
      rw [outcome_choice_none]
      · exact rest.same q few hidden
      · rwa [(rest.hidden hidden).head?]

private theorem looking {rule : ParseM α} (state : ∀ s, (outcome rule s).2.ahead = s.ahead ∧
      (outcome rule s).2.lastLine = s.lastLine)
    (same : ∀ (q : Surrounding) s, q.Hidden s →
      outcome rule (q.around s) = ((outcome rule s).1, q.around (outcome rule s).2)) :
    Proceeds kinds n 0 rule rule := by
  intro s
  constructor
  · rw [(state s).1]
    exact .refl
  · intro a s' run
    have ahead := (state s).1
    rw [run] at ahead
    rw [ahead]
    exact .refl
  · exact (state s).2
  · intro q _ hidden
    refine same q s ?_
    unfold Surrounding.Hidden at hidden ⊢
    rwa [(state s).1, (state s).2] at hidden

theorem check (kind : Kind) : Proceeds kinds n 0 (Parse.check kind) (Parse.check kind) :=
  looking (fun _ => ⟨rfl, rfl⟩) fun q s hidden => by
    rw [outcome_check, outcome_check, hidden.head?]

theorem atEnd : Proceeds kinds n 0 Parse.atEnd Parse.atEnd :=
  looking (fun _ => ⟨rfl, rfl⟩) fun q s hidden => by
    rw [outcome_atEnd, outcome_atEnd, hidden.isEmpty]

private theorem peek : Proceeds kinds n 0 Parse.peek Parse.peek :=
  looking (fun _ => ⟨rfl, rfl⟩) fun q s hidden => by
    rw [outcome_peek, outcome_peek]
    exact congrArg (fun t => (Except.ok t, q.around s)) hidden.peek

theorem report (e : SyntaxError) : Proceeds kinds n 0 (Parse.report e) (Parse.report e) :=
  looking (fun _ => ⟨rfl, rfl⟩) fun q s _ => by
    rw [outcome_report, outcome_report]
    simp only [Surrounding.around, List.append_assoc]

theorem freshExpr : Proceeds kinds n 0 Parse.freshExpr Parse.freshExpr :=
  looking (fun _ => ⟨rfl, rfl⟩) fun _ _ _ => rfl

theorem freshSite : Proceeds kinds n 0 Parse.freshSite Parse.freshSite :=
  looking (fun _ => ⟨rfl, rfl⟩) fun _ _ _ => rfl

theorem noteFull (count : Nat) (fault : SyntaxFault) :
    Proceeds kinds n 0 (Parse.noteFull count fault) (Parse.noteFull count fault) := by
  unfold Parse.noteFull
  split
  · exact peek.andThen fun t => report ⟨t, fault⟩
  · exact .pure ()

theorem accept_then {kind : Kind} {next next' : Option Token → ParseM β} (among : kinds kind)
    (without : Proceeds kinds n d (next none) (next' none))
    (behind : ∀ t, Proceeds kinds (n - 1) (d - 1) (next (some t)) (next' (some t))) :
    Proceeds kinds n d (accept kind >>= next) (accept kind >>= next') :=
  choice (fun _ member => List.mem_singleton.mp member ▸ among) without behind

/-- A token that has to be next. -/
theorem expect {kind : Kind} (among : kinds kind) (expected : Expected) :
    Proceeds kinds n 1 (Parse.expect kind expected) (Parse.expect kind expected) :=
  accept_then among (.fail _) fun t => .pure t

end Proceeds

private theorem skipFrom_suffix (last : Token) (ts : List Token) : skipFrom last ts <:+ ts := by
  induction ts generalizing last with
  | nil => exact List.suffix_rfl
  | cons t ts ih =>
    unfold skipFrom
    split
    · exact List.suffix_rfl
    · split
      · exact List.suffix_rfl
      · exact (ih t).trans (List.suffix_cons t ts)

private theorem skipFrom_append {last : Token} {ts : List Token} (some : skipFrom last ts ≠ [])
    (more : List Token) : skipFrom last (ts ++ more) = skipFrom last ts ++ more := by
  induction ts generalizing last with
  | nil => exact absurd rfl some
  | cons t ts ih =>
    rw [List.cons_append]
    unfold skipFrom at some ⊢
    split
    · rfl
    · rename_i other
      rw [if_neg other] at some
      split
      · rfl
      · rename_i inner
        rw [if_neg inner] at some
        exact ih some

private theorem skipToBoundary_suffix (t : Token) (ts : List Token) : skipToBoundary
    (t :: ts) <:+ ts :=
  skipFrom_suffix t ts

private theorem skipToBoundary_append {ts : List Token} (some : skipToBoundary ts ≠ [])
    (more : List Token) : skipToBoundary (ts ++ more) = skipToBoundary ts ++ more := by
  cases ts with
  | nil => exact absurd rfl some
  | cons t ts => exact skipFrom_append some more

theorem takesFrom_skipToBoundary (ts : List Token) :
    TakesFrom (fun _ => True) (min 1 ts.length) ts (skipToBoundary ts) := by
  cases ts with
  | nil => exact .refl
  | cons t ts =>
    obtain ⟨front, split⟩ := skipToBoundary_suffix t ts
    refine ⟨t :: front, ?_, fun _ _ => trivial, by simp⟩
    rw [List.cons_append, split]

theorem Proceeds.recovering {rule rule' : ParseM Stmt} {n : Nat}
    (h : Proceeds (fun _ => True) n 1 rule rule') (s : ParseState) :
    ProceedsAt (fun _ => True) n (min 1 s.ahead.length) (Parse.recovering rule)
      (Parse.recovering rule') s := by
  obtain ⟨taken, result, line, same⟩ := h s
  rcases run : outcome rule s with ⟨e | a, s'⟩
  case ok =>
    have whole : outcome (Parse.recovering rule) s = (.ok (some a), s') := by
      rw [outcome_recovering, run]
    have taken : TakesFrom (fun _ => True) (min 1 s.ahead.length) s.ahead s'.ahead :=
      (result run).mono (fun _ => id) (Nat.min_le_left 1 s.ahead.length)
    rw [run] at line same
    constructor
    · rw [whole]
      exact taken.mono (fun _ => id) (Nat.zero_le _)
    · intro r s'' run'
      rw [whole] at run'
      obtain ⟨_, rfl⟩ := Prod.mk.inj run'
      exact taken
    · rw [whole, line]
    · intro q few hidden
      rw [whole] at hidden ⊢
      rw [outcome_recovering, same q few hidden]
  case error =>
    have whole : outcome (Parse.recovering rule) s = (.ok none,
        { s' with errors := s'.errors ++ [e], ahead := skipToBoundary s'.ahead }) := by
      rw [outcome_recovering, run]
    rw [run] at taken line same
    have skipped : TakesFrom (fun _ => True) (min 1 s.ahead.length) s.ahead
        (skipToBoundary s'.ahead) := by
      rcases Nat.eq_zero_or_pos s'.ahead.length with nothing | some
      · obtain ⟨front, split, _⟩ := taken
        rw [List.length_eq_zero_iff.mp nothing] at split ⊢
        rw [split]
        exact ⟨front, rfl, fun _ _ => trivial, by
          rw [List.append_nil]
          exact Nat.min_le_right _ _⟩
      · have step := takesFrom_skipToBoundary s'.ahead
        rw [Nat.min_eq_left some] at step
        exact (taken.trans step).mono (fun _ => id) (Nat.min_le_left _ _)
    constructor
    · rw [whole]
      exact skipped.mono (fun _ => id) (Nat.zero_le _)
    · intro r s'' run'
      rw [whole] at run'
      obtain ⟨_, rfl⟩ := Prod.mk.inj run'
      exact skipped
    · rw [whole, ← line]
    · intro q few hidden
      rw [whole] at hidden ⊢
      -- What is ahead behind the boundary was ahead where the rule was given up.
      have before : q.Hidden s' :=
        hidden.imp (fun some none => some (by simp [none, skipToBoundary])) id
      have ahead : skipToBoundary (s'.ahead ++ q.tokens) = skipToBoundary s'.ahead ++ q.tokens := by
        rcases hidden with some | ⟨none, _⟩
        · exact skipToBoundary_append some _
        · simp [none]
      rw [outcome_recovering, same q few before]
      simp only [Surrounding.around, ahead, List.append_assoc]

theorem recovering_ok (rule : ParseM Stmt) (s : ParseState) :
    ∃ r, (outcome (recovering rule) s).1 = .ok r := by
  rw [outcome_recovering]
  rcases outcome rule s with ⟨e | a, s'⟩
  · exact ⟨none, rfl⟩
  · exact ⟨some a, rfl⟩

end Parse

end LoxLang
