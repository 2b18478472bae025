import LoxLang.Proofs.RelinedSessions

/-!
What is done in two sessions that differ in nothing but lines.  Every operation shows the same in
both of them, but for the lines that its errors and its values tell of.
-/

set_option autoImplicit false
set_option relaxedAutoImplicit false

namespace LoxLang

section

variable (line : Nat → Nat)

def Answer.reline : Answer → Answer
  | .ran result => .ran (result.mapError (SessionError.reline line))
  | .evaluated result =>
    .evaluated ((result.map (Value.reline line)).mapError (SessionError.reline line))
  | .reset => .reset

def Observation.reline (o : Observation) : Observation :=
  { o with answer := o.answer.reline line }

end

namespace Session.SameButLines

variable {s s' : Session} (h : s.SameButLines s')

include h

theorem lines_eq : s'.lines = s.lines := congrArg Array.toList h.machine.printed

private theorem run_self (config : Config) (source : String) :
    (s'.run config source).1.mapError (SessionError.reline oneLine) =
        (s.run config source).1.mapError (SessionError.reline oneLine) ∧
      (s.run config source).2.SameButLines (s'.run config source).2 := by
  have handed : (readProgram s'.labels source).labels = (readProgram s.labels source).labels := by
    rw [h.labels]
  cases read : (readProgram s.labels source).result with
  | ok p => exact h.run_read config read (h.labels.symm ▸ read) rfl handed
  | error errors =>
    rw [run_unread config s source read, run_unread config s' source (h.labels.symm ▸ read)]
    exact ⟨rfl, { h with
      labels := handed
      hadError := rfl }⟩

private theorem evaluate_self (config : Config) (source : String) :
    ((s'.evaluate config source).1.map (Value.reline oneLine)).mapError
          (SessionError.reline oneLine) =
        ((s.evaluate config source).1.map (Value.reline oneLine)).mapError
          (SessionError.reline oneLine) ∧
      (s.evaluate config source).2.SameButLines (s'.evaluate config source).2 := by
  have handed :
      (readExpression s'.labels source).labels = (readExpression s.labels source).labels := by
    rw [h.labels]
  cases read : (readExpression s.labels source).result with
  | ok e => exact h.evaluate_read config read (h.labels.symm ▸ read) rfl handed
  | error e =>
    rw [evaluate_unread config s source read,
      evaluate_unread config s' source (h.labels.symm ▸ read)]
    exact ⟨rfl, { h with
      labels := handed
      hadError := rfl }⟩

private theorem perform (r : Request) :
    (s'.perform r).1.reline oneLine = (s.perform r).1.reline oneLine ∧
      (s.perform r).2.SameButLines (s'.perform r).2 := by
  obtain ⟨config, operation⟩ := r
  cases operation with
  | run source =>
    obtain ⟨result, left⟩ := h.run_self config source
    exact ⟨congrArg Answer.ran result, left⟩
  | evaluate source =>
    obtain ⟨result, left⟩ := h.evaluate_self config source
    exact ⟨congrArg Answer.evaluated result, left⟩
  | resetErrors => exact ⟨rfl, { h with hadError := rfl, hadRuntimeError := rfl }⟩

/-- All that is done later shows the same on both sides. -/
theorem observe (rs : List Request) :
    (s'.observe rs).map (Observation.reline oneLine) =
      (s.observe rs).map (Observation.reline oneLine) := by
  induction rs generalizing s s' with
  | nil => rfl
  | cons r rs ih =>
    obtain ⟨answer, left⟩ := h.perform r
    have first : (s'.shows (s'.perform r)).reline oneLine =
        (s.shows (s.perform r)).reline oneLine := by
      simp only [Session.shows, Observation.reline, answer, h.lines_eq, left.lines_eq,
        left.hadError, left.hadRuntimeError]
    rw [Session.observe, Session.observe, List.map_cons, List.map_cons, first, ih left]

end Session.SameButLines

end LoxLang
