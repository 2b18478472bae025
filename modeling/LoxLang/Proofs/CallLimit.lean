import LoxLang.Proofs.CallCounts
import LoxLang.Proofs.CutSessions

/-!
The limit on active calls.  A call is come to when its callee and its arguments have been evaluated
and the callee takes as many arguments; how many calls are active then is told by the nesting of the
calls alone.  An operation under a limit is the one without a limit up to the first call that finds
as many calls active as the limit allows.  If there is none the two are the same; otherwise the
limited one stops at the closing parenthesis of that call.
-/

set_option autoImplicit false
set_option relaxedAutoImplicit false

namespace LoxLang

open EvalM Event

/-- A call that is come to: its closing parenthesis, and how many calls are active. -/
structure CallPoint where
  paren : Token
  active : Nat

def CallPoint.along : Nat → List Event → List CallPoint
  | _, [] => []
  | active, .begins paren _ :: evs => ⟨paren, active⟩ :: along (active + 1) evs
  | active, .ends _ :: evs => along (active - 1) evs
  | active, _ :: evs => along active evs

/-- The calls that an operation comes to.  No call is active at the top level. -/
def Session.callPoints (s : Session) (r : Request) : List CallPoint :=
  CallPoint.along 0 (s.events r)

def firstAtLimit (limit : Nat) (calls : List CallPoint) : Option CallPoint :=
  calls.find? (·.active == limit)

def CallPoint.failure (p : CallPoint) : Failure := .fault ⟨p.paren.line, .stackOverflow⟩

/-! Where calls are refused. -/

private theorem EvalM.outcome_expectCallable_fitting (limit : Option Nat) (c : Callable)
    (paren : Token) (m : Machine) :
    (expectCallable limit (.callable c) c.arity paren).outcome m =
      if limit.any (· ≤ m.depth) then
        (.error (.failure (.fault ⟨paren.line, .stackOverflow⟩)), m)
      else (.ok c, m) := by
  rw [expectCallable, outcome_bind, outcome_get]
  dsimp only
  rw [if_neg (not_not_intro rfl)]
  split <;> rfl

namespace Barrier

def ofLimit (limit : Nat) : Barrier where
  begins paren m :=
    if limit < m.depth then some ⟨.fault ⟨paren.line, .stackOverflow⟩, m⟩ else none
  prints _ _ := none

private theorem stop?_ofLimit_begins (limit : Nat) (paren : Token) (m : Machine) :
    (ofLimit limit).stop? (.begins paren m) =
      if limit < m.depth then some ⟨.fault ⟨paren.line, .stackOverflow⟩, m⟩ else none := rfl

private theorem ofLimit_call (limit : Nat) (f : Value) (given : Nat) (paren : Token) :
    Cut (ofLimit limit) (expectCallable (some limit) f given paren)
      (expectCallable none f given paren)
      (behind (expectCallable none f given paren) fun _ m =>
        [.begins paren { m with depth := m.depth + 1 }]) := by
  intro m
  cases f with
  | callable c =>
    by_cases arity : given = c.arity
    · subst arity
      have free : (expectCallable none (.callable c) c.arity paren).outcome m = (.ok c, m) :=
        outcome_expectCallable_fitting none c paren m
      rw [behind, free, outcome_expectCallable_fitting, Option.any_some]
      dsimp only
      rw [first?_cons, stop?_ofLimit_begins]
      by_cases full : limit ≤ m.depth
      · rw [if_pos (decide_eq_true full), if_pos (Nat.lt_succ_of_le full)]
        exact rfl
      · rw [if_neg fun more => full (Nat.le_of_lt_succ more),
          if_neg fun more => full (of_decide_eq_true more)]
        exact rfl
    · have wrong : ∀ l, (expectCallable l (.callable c) given paren).outcome m =
          (.error (.failure (.fault ⟨paren.line, .wrongArity c.arity given⟩)), m) := by
        intro l
        rw [expectCallable, outcome_bind, outcome_get]
        dsimp only
        rw [if_pos arity, outcome_fault]
      rw [behind, wrong, wrong]
      exact rfl
  | nil | bool | number | string | object => exact rfl

private theorem ofLimit_between (limit : Nat) (config : Config) :
    (ofLimit limit).Between { config with callLimit := some limit }
      { config with callLimit := none } where
  bound := rfl
  clock := rfl
  print _ := .same fun _ => rfl
  call := ofLimit_call limit

private theorem first?_ofLimit {limit n n' : Nat} {evs : List Event} (climbs : Climbs none n evs n')
    (le : n ≤ limit) :
    ((ofLimit limit).first? evs).map Stop.failure =
      (firstAtLimit limit (CallPoint.along n evs)).map CallPoint.failure := by
  induction climbs with
  | stay _ => rfl
  | @pass n n' ev evs none _ ih =>
    have silent : (ofLimit limit).stop? ev = Option.none := by
      cases ev with
      | begins | ends => cases none
      | _ => rfl
    have alike : CallPoint.along n (ev :: evs) = CallPoint.along n evs := by
      cases ev with
      | begins | ends => cases none
      | _ => rfl
    rw [first?_cons, silent, Option.none_or, alike]
    exact ih le
  | @up n n' paren m evs _ counted _ ih =>
    rw [first?_cons, stop?_ofLimit_begins, counted, CallPoint.along, firstAtLimit, List.find?_cons]
    rcases Nat.eq_or_lt_of_le le with rfl | lt
    · rw [if_pos (Nat.lt_succ_self n), beq_self_eq_true]
      rfl
    · rw [if_neg (Nat.not_lt.mpr lt), beq_false_of_ne (Nat.ne_of_lt lt)]
      exact ih lt
  | down _ _ _ ih => exact ih (Nat.le_of_succ_le le)

private theorem first?_ofLimit_mono {limit limit' : Nat} {evs : List Event} (le : limit ≤ limit')
    (free : (ofLimit limit).first? evs = none) : (ofLimit limit').first? evs = none := by
  refine List.findSome?_eq_none_iff.mpr fun ev event => ?_
  have none := List.findSome?_eq_none_iff.mp free ev event
  cases ev with
  | begins paren m =>
    rw [stop?_ofLimit_begins] at none ⊢
    have below : ¬ limit < m.depth := fun above => by simp [above] at none
    exact if_neg fun above => below (Nat.lt_of_le_of_lt le above)
  | _ => rfl

end Barrier

/-! Operations. -/

/-- Whether an operation answers that too many calls were active at a line. -/
def Answer.OverflowsAt (line : Nat) (a : Answer) : Prop :=
  a.error? = some (.failed (.fault ⟨line, .stackOverflow⟩))

namespace Session

variable {s : Session} {config : Config} (unlimited : config.callLimit = none)
  (globals : s.interpreter.machine.scope = .globals)

include unlimited

private theorem climbing_kept (D : Distances) : (Invariant.climbing none).Kept ⟨config, D⟩ :=
  unlimited ▸ Invariant.climbing_kept ⟨config, D⟩

include globals

private theorem events_climb (depth : s.interpreter.machine.depth = 0) (operation : Operation) :
    Climbs none 0 (s.events ⟨config, operation⟩) 0 := by
  obtain ⟨_, _, climbs⟩ := (perform_kept (r := ⟨config, operation⟩) (climbing_kept unlimited) globals
    (fun _ _ => trivial) (s.reads_any _) trivial).path
  rw [depth] at climbs
  exact climbs

private theorem perform_never_overflows (operation : Operation) (line : Nat) :
    ¬ (s.perform ⟨config, operation⟩).1.OverflowsAt line := fun overflows =>
  perform_failure (r := ⟨config, operation⟩) (climbing_kept unlimited) globals
    (fun _ _ => trivial) (s.reads_any _) trivial overflows rfl line rfl

private theorem free_of_firstAtLimit {limit : Nat} {operation : Operation}
    (depth : s.interpreter.machine.depth = 0)
    (free : firstAtLimit limit (s.callPoints ⟨config, operation⟩) = none) :
    (Barrier.ofLimit limit).first? (s.events ⟨config, operation⟩) = none := by
  have told := Barrier.first?_ofLimit (events_climb unlimited globals depth operation)
    (Nat.zero_le limit)
  rw [show firstAtLimit limit (CallPoint.along 0 _) = none from free] at told
  exact Option.map_eq_none_iff.mp told

private theorem stop_of_firstAtLimit {limit : Nat} {operation : Operation} {p : CallPoint}
    (depth : s.interpreter.machine.depth = 0)
    (found : firstAtLimit limit (s.callPoints ⟨config, operation⟩) = some p) :
    ∃ stop, (Barrier.ofLimit limit).first? (s.events ⟨config, operation⟩) = some stop ∧
      stop.failure = p.failure := by
  have told := Barrier.first?_ofLimit (events_climb unlimited globals depth operation)
    (Nat.zero_le limit)
  rw [show firstAtLimit limit (CallPoint.along 0 _) = some p from found] at told
  exact Option.map_eq_some_iff.mp told

omit unlimited

private theorem perform_below_limit {limit : Nat} {operation : Operation}
    (free : (Barrier.ofLimit limit).first?
      (s.events ⟨{ config with callLimit := none }, operation⟩) = none) :
    s.perform ⟨{ config with callLimit := some limit }, operation⟩ =
      s.perform ⟨{ config with callLimit := none }, operation⟩ := by
  have cut := perform_cut (Barrier.ofLimit_between limit config) globals operation
  rw [free] at cut
  exact cut

private theorem perform_at_limit {limit : Nat} {operation : Operation} {stop : Stop} {p : CallPoint}
    (first : (Barrier.ofLimit limit).first?
      (s.events ⟨{ config with callLimit := none }, operation⟩) = some stop)
    (failure : stop.failure = p.failure) :
    (s.perform ⟨{ config with callLimit := some limit }, operation⟩).1.OverflowsAt p.paren.line := by
  have cut := perform_cut (Barrier.ofLimit_between limit config) globals operation
  rw [first] at cut
  exact cut.1.trans (congrArg (fun f => some (SessionError.failed f)) failure)

end Session

/-- Behind every history an operation under a limit on calls that does not answer that too many
calls were active is the same under every greater limit, and without one.  It answers so, at the
line of a closing parenthesis, just when the operation without a limit comes to a call there that
finds as many calls active as the limit allows, and to no such call before. -/
theorem call_limit_exact (history : List Request) (config : Config) (operation : Operation)
    (limit : Nat) :
    let s := Session.initial.performAll history
    let under (limit? : Option Nat) :=
      s.perform ⟨{ config with callLimit := limit? }, operation⟩
    let calls := s.callPoints ⟨{ config with callLimit := none }, operation⟩
    ((∀ line, ¬ (under (some limit)).1.OverflowsAt line) →
      under none = under (some limit) ∧
        ∀ limit', limit ≤ limit' → under (some limit') = under (some limit)) ∧
    (∀ line, ¬ (under none).1.OverflowsAt line) ∧
    ∀ line, (under (some limit)).1.OverflowsAt line ↔
      ∃ before p after, calls = before ++ p :: after ∧ (∀ q ∈ before, q.active ≠ limit) ∧
        p.active = limit ∧ p.paren.line = line := by
  intro s under calls
  have globals : s.interpreter.machine.scope = .globals := Session.performAll_scope rfl history
  have depth : s.interpreter.machine.depth = 0 := Session.initial.performAll_depth history
  have unlimited : ({ config with callLimit := none } : Config).callLimit = none := rfl
  have never := Session.perform_never_overflows unlimited globals operation
  have missed {limit} (none : firstAtLimit limit calls = none) :=
    Session.free_of_firstAtLimit unlimited globals depth none
  have reached {limit p} (found : firstAtLimit limit calls = some p) :
      (under (some limit)).1.OverflowsAt p.paren.line := by
    obtain ⟨stop, first, failure⟩ :=
      Session.stop_of_firstAtLimit unlimited globals depth found
    exact Session.perform_at_limit globals first failure
  refine ⟨fun quiet => ?_, never, fun line => ⟨fun overflows => ?_, ?_⟩⟩
  · cases found : firstAtLimit limit calls with
    | some p => exact absurd (reached found) (quiet _)
    | none =>
      have same := Session.perform_below_limit globals (missed found)
      refine ⟨same.symm, fun limit' le => ?_⟩
      have free := Barrier.first?_ofLimit_mono le (missed found)
      exact (Session.perform_below_limit globals free).trans same.symm
  · cases found : firstAtLimit limit calls with
    | none =>
      have same := Session.perform_below_limit globals (missed found)
      exact absurd (same ▸ overflows) (never line)
    | some p =>
      obtain ⟨active, before, after, split, other⟩ := List.find?_eq_some_iff_append.mp found
      have same : p.paren.line = line := by
        have both := (reached found).symm.trans overflows
        simpa using both
      exact ⟨before, p, after, split, fun q member => by simpa using other q member,
        by simpa using active, same⟩
  · rintro ⟨before, p, after, split, other, active, rfl⟩
    refine reached (List.find?_eq_some_iff_append.mpr ⟨by simpa using active, before, after, split,
      fun q member => by simpa using other q member⟩)

end LoxLang
