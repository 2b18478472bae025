import LoxLang.Proofs.PlainSession

/-!
A run that is refused changes nothing that shows.  It leaves the state of the execution alone; the
numbers that its text used up only move those of later texts, and the distances that it recorded
are those of numbers that no later tree carries.
-/

set_option autoImplicit false
set_option relaxedAutoImplicit false

namespace LoxLang

open Std (TreeMap)

def Session.Recorded (s : Session) : Prop :=
  ∀ id, s.labels.expr ≤ id → s.interpreter.distances[id]? = none

/-- Resolving a program that was just read records no distances of numbers before it or behind. -/
theorem resolve_outside {labels : Labels} {source : String} {program : List Stmt}
    (read : (readProgram labels source).result = .ok program) (i : Interpreter) {id : ExprId}
    (outside : id < labels.expr ∨ (readProgram labels source).labels.expr ≤ id) :
    (i.resolve program).2.distances[id]? = i.distances[id]? := by
  refine resolve_other i.distances fun member => ?_
  have within := (readProgram_numbered read).within _ member
  rcases outside with before | behind
  · exact Nat.lt_irrefl _ (Nat.lt_of_lt_of_le before within.1)
  · exact Nat.lt_irrefl _ (Nat.lt_of_lt_of_le within.2 behind)

namespace Session

theorem run_distances {config : Config} {s : Session} {source : String} {id : ExprId}
    (outside : id < s.labels.expr ∨ (s.run config source).2.labels.expr ≤ id) :
    (s.run config source).2.interpreter.distances[id]? = s.interpreter.distances[id]? := by
  rw [run_labels] at outside
  cases read : (readProgram s.labels source).result with
  | error errors => rw [run_unread config s source read]
  | ok program =>
    have resolved := resolve_outside read s.interpreter outside
    by_cases bound : (s.interpreter.resolve program).1 = []
    · rw [run_executed config s source read bound]
      dsimp only
      rw [Interpreter.execute_distances]
      exact resolved
    · rw [run_unbound config s source read bound]
      exact resolved

theorem Recorded.run {s : Session} (h : s.Recorded) (config : Config) (source : String) :
    (s.run config source).2.Recorded := by
  intro id behind
  rw [run_distances (.inr behind)]
  rw [run_labels] at behind
  exact h id (Nat.le_trans (readProgram_labels_le s.labels source).1 behind)

private theorem Recorded.evaluate {s : Session} (h : s.Recorded) (config : Config)
    (source : String) :
    (s.evaluate config source).2.Recorded := by
  intro id behind
  rw [evaluate_labels] at behind
  have before := Nat.le_trans (readExpression_labels_le s.labels source).1 behind
  cases read : (readExpression s.labels source).result with
  | error e =>
    rw [evaluate_unread config s source read]
    exact h id before
  | ok e =>
    rw [evaluate_read config s source read]
    exact h id before

private theorem Recorded.performAll {s : Session} (h : s.Recorded) (rs : List Request) :
    (s.performAll rs).Recorded := by
  induction rs generalizing s with
  | nil => exact h
  | cons r rs ih =>
    refine ih ?_
    obtain ⟨config, operation⟩ := r
    cases operation with
    | run source => exact h.run config source
    | evaluate source => exact h.evaluate config source
    | resetErrors => exact h

theorem Reachable.recorded {s : Session} (h : s.Reachable) : s.Recorded := by
  obtain ⟨history, rfl⟩ := h
  refine Recorded.performAll (fun id _ => ?_) history
  simp [initial, Interpreter.initial]

end Session

private theorem Labels.le_iff_plus {l l' : Labels} : l ≤ l' ↔ ∃ count, l' = l.plus count := by
  constructor
  · intro h
    refine ⟨⟨l'.expr - l.expr, l'.site - l.site⟩, ?_⟩
    rw [plus, Nat.add_sub_cancel' h.1, Nat.add_sub_cancel' h.2]
  · rintro ⟨count, rfl⟩
    exact ⟨Nat.le_add_right _ _, Nat.le_add_right _ _⟩

def beyond (mark count n : Nat) : Nat := if n < mark then n else n + count

private theorem beyond_below {mark count n : Nat} (h : n < mark) : beyond mark count n = n :=
  if_pos h

private theorem beyond_above {mark count n : Nat} (h : mark ≤ n) :
    beyond mark count n = n + count :=
  if_neg (Nat.not_lt.mpr h)

private theorem beyond_injective (mark count : Nat) : Function.Injective (beyond mark count) := by
  intro a b h
  unfold beyond at h
  split at h <;> split at h <;> omega

def Mirror.skip (mark count : Labels) : Mirror where
  expr id id' := id' = beyond mark.expr count.expr id
  site site site' := site' = beyond mark.site count.site site
  drop _ := 0
  bound _ _ := True
  quoted name name' := name' = name
  allowed ρ := ρ = .refl
  site_iff := by
    rintro a _ b _ rfl rfl
    exact (beyond_injective _ _).eq_iff.symm
  allowed_refl := rfl

section

variable {mark count : Labels}

private theorem Mirror.plain_skip : (Mirror.skip mark count).Plain where
  allowed h := h
  bound _ _ := trivial
  quoted := Iff.rfl
  expr_iff := by
    rintro a _ b _ rfl rfl
    exact (beyond_injective _ _).eq_iff.symm

private theorem Mirror.maps_skip :
    (Mirror.skip mark count).Maps (beyond mark.expr count.expr) (beyond mark.site count.site) :=
  ⟨fun h => h, fun h => h⟩

private theorem Mirror.level_skip : (Mirror.skip mark count).Level := fun _ => rfl

private theorem Mirror.fits_before {lo hi : Labels} (h : hi ≤ mark) :
    (Mirror.skip mark count).Fits ⟨0, 0⟩ lo hi := by
  rintro (id | site) within
  · exact (beyond_below (Nat.lt_of_lt_of_le within.2 h.1)).symm
  · exact ⟨(beyond_below (Nat.lt_of_lt_of_le within.2 h.2)).symm, rfl⟩

private theorem Mirror.fits_behind {lo hi : Labels} (h : mark ≤ lo) :
    (Mirror.skip mark count).Fits count lo hi := by
  rintro (id | site) within
  · exact (beyond_above (Nat.le_trans h.1 within.1)).symm
  · exact ⟨(beyond_above (Nat.le_trans h.2 within.1)).symm, rfl⟩

end

/-- What later operations show when the first flag is up before them: it stays up until the flags
are cleared. -/
def errorKept : List Request → List Observation → List Observation
  | ⟨_, .resetErrors⟩ :: _, os => os
  | _ :: rs, o :: os => { o with hadError := true } :: errorKept rs os
  | _, os => os

namespace Session

private theorem perform_hadError (s : Session) (config : Config) {operation : Operation}
    (other : operation ≠ .resetErrors) (up : s.hadError = true) :
    (s.perform ⟨config, operation⟩).2.hadError = true := by
  cases operation with
  | run source =>
    cases read : (readProgram s.labels source).result with
    | error errors => simp only [perform, run_unread config s source read]
    | ok program =>
      by_cases bound : (s.interpreter.resolve program).1 = []
      · simp only [perform, run_executed config s source read bound, up]
      · simp only [perform, run_unbound config s source read bound]
  | evaluate source =>
    cases read : (readExpression s.labels source).result with
    | error e => simp only [perform, evaluate_unread config s source read]
    | ok e => simp only [perform, evaluate_read config s source read, up]
  | resetErrors => exact absurd rfl other

private theorem run_rejected {config : Config} {s : Session} {source : String}
    {errors : List StaticError} (rejected : (s.run config source).1 = .error (.rejected errors)) :
    (s.run config source).2.interpreter.machine = s.interpreter.machine ∧
      (s.run config source).2.hadError = true ∧
      (s.run config source).2.hadRuntimeError = s.hadRuntimeError := by
  cases read : (readProgram s.labels source).result with
  | error errors => simp only [run_unread config s source read, and_self]
  | ok program =>
    by_cases bound : (s.interpreter.resolve program).1 = []
    · rw [run_executed config s source read bound] at rejected
      dsimp only at rejected
      cases ended : ((s.interpreter.resolve program).2.execute config program).1 with
      | ok _ => simp [ended, Except.mapError] at rejected
      | error f => simp [ended, Except.mapError] at rejected
    · rw [run_unbound config s source read bound]
      exact ⟨rfl, rfl, rfl⟩

end Session

namespace SessionRel

variable {mark count : Labels} {s s' : Session}

private theorem run_rejected {config : Config} {source : String} {errors : List StaticError}
    (h : SessionRel (.skip s.labels count) ⟨0, 0⟩ s s) (recorded : s.Recorded)
    (rejected : (s.run config source).1 = .error (.rejected errors))
    (used : (s.run config source).2.labels = s.labels.plus count) :
    SessionRel (.skip s.labels count) count s (s.run config source).2 := by
  obtain ⟨machine, _, flag⟩ := Session.run_rejected rejected
  obtain ⟨W, hi⟩ := h.interpreter
  refine ⟨⟨W, machine ▸ hi.machine, hi.scope, ?_⟩, used, flag⟩
  rintro id _ rfl
  refine ⟨?_, trivial⟩
  rcases Nat.lt_or_ge id s.labels.expr with before | behind
  · rw [beyond_below before]
    exact Session.run_distances (.inl before)
  · have behind' : (s.run config source).2.labels.expr ≤ id + count.expr := by
      rw [used]
      exact Nat.add_le_add_right behind _
    rw [beyond_above behind, Session.run_distances (.inr behind'),
      recorded _ behind, recorded _ (Nat.le_trans behind (Nat.le_add_right _ _))]

variable (h : SessionRel (.skip mark count) count s s') (behind : mark ≤ s.labels)

include h behind

private theorem perform (r : Request) :
    StepRel (.skip mark count) (beyond mark.expr count.expr) (beyond mark.site count.site) count
      s s' (s.perform r) (s'.perform r) :=
  perform_rel Mirror.plain_skip Mirror.level_skip Mirror.maps_skip r h (Mirror.fits_behind behind)

private theorem observe (rs : List Request) (flag : s'.hadError = s.hadError) :
    s'.observe rs = (s.observe rs).map
      (.renumber (beyond mark.expr count.expr) (beyond mark.site count.site)) :=
  observe_renumber Mirror.plain_skip Mirror.level_skip Mirror.maps_skip h
    (fun _ => Mirror.fits_behind behind) rs flag

private theorem observe_errorKept (rs : List Request) (up : s'.hadError = true) :
    s'.observe rs = errorKept rs ((s.observe rs).map
      (.renumber (beyond mark.expr count.expr) (beyond mark.site count.site))) := by
  induction rs generalizing s s' with
  | nil => rfl
  | cons r rs ih =>
    have step := h.perform behind r
    have behind' := Labels.le_trans behind (Session.perform_labels_le s r)
    have first := step.shows h
    obtain ⟨config, operation⟩ := r
    have later : operation ≠ .resetErrors → s'.observe (⟨config, operation⟩ :: rs) =
        { (s.shows (s.perform ⟨config, operation⟩)).renumber (beyond mark.expr count.expr)
            (beyond mark.site count.site) with hadError := true } ::
          errorKept rs (((s.perform ⟨config, operation⟩).2.observe rs).map
            (.renumber (beyond mark.expr count.expr) (beyond mark.site count.site))) := by
      intro other
      have still := Session.perform_hadError s' config other up
      rw [still] at first
      rw [Session.observe, first, ih step.session behind' still]
    cases operation with
    | run source => exact later (by simp)
    | evaluate source => exact later (by simp)
    | resetErrors =>
      have rest := step.session.observe behind' rs rfl
      rw [Session.observe, first, rest]
      rfl

end SessionRel

/-- After a run that is refused, which prints nothing, all later operations show what they would
have shown without it: but for the numbers inside of values, which are renamed, and the first flag,
which stays up until it is cleared. -/
theorem rejected_run_unobservable (history later : List Request) (config : Config)
    (source : String) {errors : List StaticError}
    (rejected : ((Session.initial.performAll history).run config source).1 =
      .error (.rejected errors)) :
    let s := Session.initial.performAll history
    let s' := (s.run config source).2
    s'.lines = s.lines ∧ ∃ f g, Function.Injective f ∧ Function.Injective g ∧
      s'.observe later = errorKept later ((s.observe later).map (.renumber f g)) := by
  intro s s'
  have le : s.labels ≤ s'.labels := Session.perform_labels_le s ⟨config, .run source⟩
  obtain ⟨count, used⟩ := Labels.le_iff_plus.mp le
  have before : SessionRel (.skip s.labels count) ⟨0, 0⟩ s s :=
    SessionRel.performAll Mirror.plain_skip Mirror.level_skip Mirror.maps_skip
      (Mirror.fits_before Labels.le_rfl) (.initial Mirror.plain_skip) history Labels.le_rfl
  have recorded : s.Recorded := Session.Reachable.recorded ⟨history, rfl⟩
  have related := before.run_rejected recorded rejected used
  exact ⟨related.lines_eq, beyond s.labels.expr count.expr, beyond s.labels.site count.site,
    beyond_injective _ _, beyond_injective _ _,
    related.observe_errorKept Labels.le_rfl later (Session.run_rejected rejected).2.1⟩

/-- A text that reads a local name in its own initializer, refused behind a text with a global of
that name. -/
theorem rejected_initializer_unobservable :
    let config : Config := ⟨none, .working, fun _ => 0, 100⟩
    let s := Session.initial.performAll [⟨config, .run "var a = 1;"⟩]
    let s' := (s.run config "\x7b var a = a; \x7d").2
    s'.lines = s.lines ∧ ∃ f g, Function.Injective f ∧ Function.Injective g ∧
      s'.observe [⟨config, .evaluate "a"⟩] = errorKept [⟨config, .evaluate "a"⟩]
        ((s.observe [⟨config, .evaluate "a"⟩]).map (.renumber f g)) := by
  intro config s s'
  have refused : (s.run config "\x7b var a = a; \x7d").1 =
      .error (.rejected [.binding ⟨⟨.identifier, "a", 1⟩, .readInInitializer⟩]) := by
    decide +kernel
  exact rejected_run_unobservable [⟨config, .run "var a = 1;"⟩] [⟨config, .evaluate "a"⟩]
    config "\x7b var a = a; \x7d" refused

end LoxLang
