import LoxLang.Proofs.CutRuns
import LoxLang.Proofs.ErrorPhases
import LoxLang.Proofs.SessionInvariants

/-!
Operations that are cut short.  An operation of a session that is stopped at some event answers the
failure of that, and the session goes on from the state in which it was stopped; an operation that is
stopped nowhere is what it is otherwise.
-/

set_option autoImplicit false
set_option relaxedAutoImplicit false

namespace LoxLang

variable {b : Barrier} {config config' : Config}

namespace Interpreter

theorem atGlobals_eq {i : Interpreter} (scope : i.machine.scope = .globals) : i.atGlobals = i := by
  rw [atGlobals, ← scope]

def StopsAt {α : Type} (i : Interpreter) : Option Stop →
    Except Failure α × Interpreter → Except Failure α × Interpreter → Prop
  | none, out, out' => out = out'
  | some stop, out, _ =>
    out = (.error stop.failure, { i with machine := stop.machine.at i.machine })

private theorem StopsAt.moved {α : Type} {i : Interpreter} {m : Machine} {first? : Option Stop}
    {out out' : Except Failure α × Interpreter}
    (h : StopsAt { i with machine := m } first? out out')
    (place : m.scope = i.machine.scope ∧ m.depth = i.machine.depth) :
    i.StopsAt first? out out' := by
  cases first? with
  | none => exact h
  | some stop =>
    rw [StopsAt, Machine.at, place.1, place.2] at h
    exact h

private theorem execute_cut (between : b.Between config config') {i : Interpreter}
    (scope : i.machine.scope = .globals) (ss : List Stmt) :
    i.StopsAt (b.first? (Event.ofProgram config' i ss)) (i.execute config ss)
      (i.execute config' ss) := by
  induction ss generalizing i with
  | nil => exact rfl
  | cons s ss ih =>
    have stops := (CutSteps.all between i.distances config'.bound).stmt s i.machine
    have place := (Restores.all (i.surroundings config') config'.bound).stmt s i.machine
    rw [Event.ofProgram, run_eq, execute_cons, execute_cons, b.first?_append, between.bound]
    unfold surroundings at place ⊢
    cases found : b.first? (Event.ofStmt ⟨config', i.distances⟩ config'.bound s i.machine) with
    | some stop =>
      rw [found] at stops
      have stopped : (execStmt ⟨config, i.distances⟩ config'.bound s).outcome i.machine = _ := stops
      rw [stopped]
      exact congrArg (Prod.mk _)
        (atGlobals_eq (i := { i with machine := stop.machine.at i.machine }) scope)
    | none =>
      rw [found] at stops
      have alike : (execStmt ⟨config, i.distances⟩ config'.bound s).outcome i.machine = _ := stops
      rw [alike, Option.none_or]
      generalize (execStmt ⟨config', i.distances⟩ config'.bound s).outcome i.machine = ended
        at place ⊢
      rcases ended with ⟨(f | v) | v, m⟩
      · exact rfl
      all_goals exact (ih (i := { i with machine := m }) (place.1.trans scope)).moved place

private theorem evaluate_cut (between : b.Between config config') (i : Interpreter) (e : Expr) :
    i.StopsAt (b.first? (Event.ofExpr (i.surroundings config') config'.bound e i.machine))
      (i.evaluate config e) (i.evaluate config' e) := by
  have stops := (CutSteps.all between i.distances config'.bound).expr e i.machine
  rw [evaluate, evaluate, run_eq, run_eq, between.bound]
  unfold surroundings
  cases found : b.first? (Event.ofExpr ⟨config', i.distances⟩ config'.bound e i.machine) with
  | some stop =>
    rw [found] at stops
    have stopped : (evalExpr ⟨config, i.distances⟩ config'.bound e).outcome i.machine = _ := stops
    dsimp only
    rw [stopped]
    exact rfl
  | none =>
    rw [found] at stops
    have alike : (evalExpr ⟨config, i.distances⟩ config'.bound e).outcome i.machine = _ := stops
    dsimp only
    rw [alike]
    exact rfl

end Interpreter

namespace Session

/-- The session that an operation leaves when it is stopped: that of the operation that is not, but
for the state, which is the one in which it is stopped. -/
def stoppedAt (s after : Session) (stop : Stop) : Session :=
  { after with
    interpreter := { after.interpreter with machine := stop.machine.at s.interpreter.machine }
    hadRuntimeError := true }

def StopsAt (s : Session) (config config' : Config) (operation : Operation) : Option Stop → Prop
  | none => s.perform ⟨config, operation⟩ = s.perform ⟨config', operation⟩
  | some stop =>
    (s.perform ⟨config, operation⟩).1.error? = some (.failed stop.failure) ∧
      (s.perform ⟨config, operation⟩).2 = s.stoppedAt (s.perform ⟨config', operation⟩).2 stop

private theorem stopsAt_of_execution {α : Type} {s : Session} {operation : Operation}
    {labels : Labels}
    {i : Interpreter} {out out' : Except Failure α × Interpreter} (answer : Except Failure α → Answer)
    (answered : ∀ result, (answer result).error? = SessionError.failed? result)
    (performed : s.perform ⟨config, operation⟩ = (answer out.1,
      { s with
        interpreter := out.2
        labels
        hadRuntimeError := s.hadRuntimeError || !out.1.isOk }))
    (performed' : s.perform ⟨config', operation⟩ = (answer out'.1,
      { s with
        interpreter := out'.2
        labels
        hadRuntimeError := s.hadRuntimeError || !out'.1.isOk }))
    (machine : i.machine = s.interpreter.machine) (distances : out'.2.distances = i.distances)
    {first? : Option Stop} (stops : i.StopsAt first? out out') :
    s.StopsAt config config' operation first? := by
  cases first? with
  | none =>
    have alike : out = out' := stops
    rw [StopsAt, performed, performed', alike]
  | some stop =>
    have stopped : out = _ := stops
    rw [StopsAt, performed, performed', stopped]
    refine ⟨answered _, ?_⟩
    simp only [stoppedAt, machine, distances, Except.isOk, Except.toBool, Bool.not_false,
      Bool.or_true]

/-- An operation is stopped where the barrier tells. -/
theorem perform_cut (between : b.Between config config') {s : Session}
    (scope : s.interpreter.machine.scope = .globals) (operation : Operation) :
    s.StopsAt config config' operation (b.first? (s.events ⟨config', operation⟩)) := by
  by_cases refuses : s.Refuses operation
  · obtain ⟨none, none'⟩ := refuses.nothing config'
    rw [events, none, none']
    exact refuses.refused.config _ _
  cases operation with
  | resetErrors => exact rfl
  | run source =>
    obtain ⟨program, read, bound⟩ := not_refuses_run refuses
    have taken : s.executed? ⟨config', .run source⟩ = some program := by
      simp only [executed?, read, bound, if_true]
    rw [events, taken]
    exact stopsAt_of_execution (fun result => .ran (result.mapError .failed)) Answer.error?_ran
      (perform_run (run_executed config s source read bound))
      (perform_run (run_executed config' s source read bound))
      (i := (s.interpreter.resolve program).2) rfl (Interpreter.execute_distances _ _ _)
      (Interpreter.execute_cut between (i := (s.interpreter.resolve program).2) scope program)
  | evaluate source =>
    obtain ⟨e, read⟩ := not_refuses_evaluate refuses
    have taken : s.evaluated? ⟨config', .evaluate source⟩ = some e := by
      simp only [evaluated?, read, Except.toOption]
    rw [events, taken]
    exact stopsAt_of_execution (fun result => .evaluated (result.mapError .failed))
      Answer.error?_evaluated (perform_evaluate (evaluate_read config s source read))
      (perform_evaluate (evaluate_read config' s source read)) (i := s.interpreter) rfl rfl
      (Interpreter.evaluate_cut between s.interpreter e)

end Session

end LoxLang
