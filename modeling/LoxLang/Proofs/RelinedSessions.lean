import LoxLang.Proofs.ParserShift
import LoxLang.Proofs.RelaidTexts
import LoxLang.Proofs.RelinedExecution
import LoxLang.Proofs.ResolveRuns
import LoxLang.Proofs.SessionRuns

/-!
Texts that differ in nothing but the lines of their tokens, run or evaluated in sessions that differ
in nothing but such lines.  Both texts and both sessions come to be the same once all lines are
taken for one, and what is done on that one line is what is done on the lines of either side.
-/

set_option autoImplicit false
set_option relaxedAutoImplicit false

namespace LoxLang

/-! Interpreters on other lines. -/

structure InterpreterRelined (line : Nat → Nat) (i i' : Interpreter) : Prop where
  machine : MachineRelined line i.machine i'.machine
  distances : ∀ id : ExprId, i'.distances[id]? = i.distances[id]?

namespace InterpreterRelined

variable {line : Nat → Nat} {i i' : Interpreter}

private theorem surroundings (h : InterpreterRelined line i i') (config : Config) :
    (i.surroundings config).Same (i'.surroundings config) := ⟨rfl, h.distances⟩

theorem resolve (h : InterpreterRelined line i i') (program : List Stmt) :
    (i'.resolve (Stmt.relineAll line program)).1 =
        (i.resolve program).1.map (BindingError.reline line) ∧
      InterpreterRelined line (i.resolve program).2
        (i'.resolve (Stmt.relineAll line program)).2 := by
  have resolved := @resolve_change Eq (fun first second => by rw [first, second]) i.distances
    i'.distances (fun same => same ▸ h.distances _) id id line program fun _ _ => rfl
  rw [Stmt.renumberAll_id] at resolved
  exact ⟨resolved.1, h.machine, fun id => resolved.2 rfl⟩

private theorem execute (config : Config) (program : List Stmt) (h : InterpreterRelined line i i') :
    (i'.execute config (Stmt.relineAll line program)).1 =
        (i.execute config program).1.mapError (Failure.reline line) ∧
      InterpreterRelined line (i.execute config program).2
        (i'.execute config (Stmt.relineAll line program)).2 := by
  induction program generalizing i i' with
  | nil => exact ⟨rfl, h⟩
  | cons s ss ih =>
    have steps : RelinedSteps line _ _ config.bound := .all (h.surroundings config) config.bound
    have ends := steps.stmt s h.machine
    rw [Stmt.relineAll, Interpreter.execute_cons, Interpreter.execute_cons]
    generalize (execStmt (i.surroundings config) config.bound s).outcome i.machine = out,
      (execStmt (i'.surroundings config) config.bound (s.reline line)).outcome i'.machine = out'
      at ends
    obtain ⟨(f | v) | _, m⟩ := out <;> obtain ⟨r', m'⟩ := out' <;> obtain ⟨rfl, left⟩ := ends
    · exact ⟨rfl, { left with scope := rfl }, h.distances⟩
    · exact ih ⟨left, h.distances⟩
    · exact ih ⟨left, h.distances⟩

private theorem evaluate (config : Config) (e : Expr) (h : InterpreterRelined line i i') :
    (i'.evaluate config (e.reline line)).1 =
        ((i.evaluate config e).1.map (Value.reline line)).mapError (Failure.reline line) ∧
      InterpreterRelined line (i.evaluate config e).2
        (i'.evaluate config (e.reline line)).2 := by
  have steps : RelinedSteps line _ _ config.bound := .all (h.surroundings config) config.bound
  have ends := steps.expr e h.machine
  rw [Interpreter.evaluate, Interpreter.evaluate, Interpreter.run_eq, Interpreter.run_eq]
  generalize (evalExpr (i.surroundings config) config.bound e).outcome i.machine = out,
    (evalExpr (i'.surroundings config) config.bound (e.reline line)).outcome i'.machine = out'
    at ends
  obtain ⟨(f | v) | _, m⟩ := out <;> obtain ⟨r', m'⟩ := out' <;> obtain ⟨rfl, left⟩ := ends <;>
    exact ⟨rfl, left, h.distances⟩

end InterpreterRelined

/-! Sessions that differ in nothing but lines. -/

/-- The same is stored, but for the lines on which functions were declared. -/
structure Store.SameButLines (m m' : Store) : Prop where
  frames : m'.frames.size = m.frames.size
  locals : ∀ frame name,
    (m'.local? frame name).map (Value.reline oneLine) =
      (m.local? frame name).map (Value.reline oneLine)
  objects : m'.objects.size = m.objects.size
  fields : ∀ (id : ObjectId) (name : String),
    (m'.objects[id]?.bind (·[name]?)).map (Value.reline oneLine) =
      (m.objects[id]?.bind (·[name]?)).map (Value.reline oneLine)
  nextClass : m'.nextClass = m.nextClass

/-- Executions in the same state, but for the lines on which functions were declared. -/
structure Machine.SameButLines (m m' : Machine) : Prop where
  store : m.store.SameButLines m'.store
  scope : m'.scope = m.scope
  depth : m'.depth = m.depth
  printed : m'.printed = m.printed
  readings : m'.readings = m.readings

/-- Sessions in the same state, but for the lines on which functions were declared. -/
structure Session.SameButLines (s s' : Session) : Prop where
  machine : s.interpreter.machine.SameButLines s'.interpreter.machine
  distances : ∀ id : ExprId, s'.interpreter.distances[id]? = s.interpreter.distances[id]?
  labels : s'.labels = s.labels
  hadError : s'.hadError = s.hadError
  hadRuntimeError : s'.hadRuntimeError = s.hadRuntimeError

theorem Session.SameButLines.refl (s : Session) : s.SameButLines s where
  machine := ⟨⟨rfl, fun _ _ => rfl, rfl, fun _ _ => rfl, rfl⟩, rfl, rfl, rfl, rfl⟩
  distances _ := rfl
  labels := rfl
  hadError := rfl
  hadRuntimeError := rfl

private theorem Machine.sameButLines_iff {m m' : Machine} : m.SameButLines m' ↔
    ∃ m₀, MachineRelined oneLine m m₀ ∧ MachineRelined oneLine m' m₀ := by
  constructor
  · intro h
    have own : MachineRelined oneLine m _ := m.relined_reline
    exact ⟨_, own, {
      store := {
        frames := own.store.frames.trans h.store.frames.symm
        locals := fun frame name =>
          (own.store.locals frame name).trans (h.store.locals frame name).symm
        objects := own.store.objects.trans h.store.objects.symm
        fields := fun id name => (own.store.fields id name).trans (h.store.fields id name).symm
        nextClass := own.store.nextClass.trans h.store.nextClass.symm }
      scope := h.scope.symm
      depth := h.depth.symm
      printed := h.printed.symm
      readings := h.readings.symm }⟩
  · rintro ⟨m₀, h, h'⟩
    exact {
      store := {
        frames := h'.store.frames.symm.trans h.store.frames
        locals := fun frame name =>
          (h'.store.locals frame name).symm.trans (h.store.locals frame name)
        objects := h'.store.objects.symm.trans h.store.objects
        fields := fun id name => (h'.store.fields id name).symm.trans (h.store.fields id name)
        nextClass := h'.store.nextClass.symm.trans h.store.nextClass }
      scope := h'.scope.symm.trans h.scope
      depth := h'.depth.symm.trans h.depth
      printed := h'.printed.symm.trans h.printed
      readings := h'.readings.symm.trans h.readings }

namespace Machine.SameButLines

variable {m m' m'' : Machine}

private theorem refl (m : Machine) : m.SameButLines m :=
  ⟨⟨rfl, fun _ _ => rfl, rfl, fun _ _ => rfl, rfl⟩, rfl, rfl, rfl, rfl⟩

private theorem symm (h : m.SameButLines m') : m'.SameButLines m := by
  obtain ⟨m₀, own, other⟩ := sameButLines_iff.mp h
  exact sameButLines_iff.mpr ⟨m₀, other, own⟩

private theorem trans (h : m.SameButLines m') (h' : m'.SameButLines m'') : m.SameButLines m'' where
  store := {
    frames := h'.store.frames.trans h.store.frames
    locals := fun frame name => (h'.store.locals frame name).trans (h.store.locals frame name)
    objects := h'.store.objects.trans h.store.objects
    fields := fun id name => (h'.store.fields id name).trans (h.store.fields id name)
    nextClass := h'.store.nextClass.trans h.store.nextClass }
  scope := h'.scope.trans h.scope
  depth := h'.depth.trans h.depth
  printed := h'.printed.trans h.printed
  readings := h'.readings.trans h.readings

end Machine.SameButLines

/-- Interpreters in the same state, but for the lines on which functions were declared. -/
structure Interpreter.SameButLines (i i' : Interpreter) : Prop where
  machine : i.machine.SameButLines i'.machine
  distances : ∀ id : ExprId, i'.distances[id]? = i.distances[id]?

/-- Executions that end in the same way and leave the same state, but for lines. -/
structure EndsAlike (out out' : Except Failure Unit × Interpreter) : Prop where
  result : out'.1.mapError (Failure.reline oneLine) = out.1.mapError (Failure.reline oneLine)
  interpreter : out.2.SameButLines out'.2

namespace Interpreter.SameButLines

variable {i i' i'' : Interpreter}

theorem refl (i : Interpreter) : i.SameButLines i := ⟨.refl _, fun _ => rfl⟩

theorem symm (h : i.SameButLines i') : i'.SameButLines i :=
  ⟨h.machine.symm, fun id => (h.distances id).symm⟩

private theorem trans (h : i.SameButLines i') (h' : i'.SameButLines i'') : i.SameButLines i'' :=
  ⟨h.machine.trans h'.machine, fun id => (h'.distances id).trans (h.distances id)⟩

/-- Interpreters are in the same state but for lines exactly if both of them are one interpreter on
one line. -/
theorem iff_relined : i.SameButLines i' ↔
    ∃ i₀, InterpreterRelined oneLine i i₀ ∧ InterpreterRelined oneLine i' i₀ := by
  constructor
  · intro h
    obtain ⟨m₀, machine, machine'⟩ := Machine.sameButLines_iff.mp h.machine
    exact ⟨⟨m₀, i.distances⟩, ⟨machine, fun _ => rfl⟩,
      ⟨machine', fun id => (h.distances id).symm⟩⟩
  · rintro ⟨i₀, own, other⟩
    exact ⟨Machine.sameButLines_iff.mpr ⟨i₀.machine, own.machine, other.machine⟩,
      fun id => (other.distances id).symm.trans (own.distances id)⟩

variable (h : i.SameButLines i')

include h

private theorem resolve {p p' : List Stmt}
    (tree : Stmt.relineAll oneLine p' = Stmt.relineAll oneLine p) :
    (i'.resolve p').1.map (BindingError.reline oneLine) =
        (i.resolve p).1.map (BindingError.reline oneLine) ∧
      (i.resolve p).2.SameButLines (i'.resolve p').2 := by
  obtain ⟨i₀, own, other⟩ := iff_relined.mp h
  obtain ⟨errors, resolved⟩ := own.resolve p
  obtain ⟨errors', resolved'⟩ := other.resolve p'
  rw [tree] at errors' resolved'
  exact ⟨errors'.symm.trans errors, iff_relined.mpr ⟨_, resolved, resolved'⟩⟩

/-- Programs that differ in nothing but lines end alike. -/
theorem execute (config : Config) {p p' : List Stmt}
    (tree : Stmt.relineAll oneLine p' = Stmt.relineAll oneLine p) :
    EndsAlike (i.execute config p) (i'.execute config p') := by
  obtain ⟨i₀, own, other⟩ := iff_relined.mp h
  obtain ⟨ended, left⟩ := own.execute config p
  obtain ⟨ended', left'⟩ := other.execute config p'
  rw [tree] at ended' left'
  exact ⟨ended'.symm.trans ended, iff_relined.mpr ⟨_, left, left'⟩⟩

private theorem evaluate (config : Config) {e e' : Expr}
    (tree : e'.reline oneLine = e.reline oneLine) :
    ((i'.evaluate config e').1.map (Value.reline oneLine)).mapError (Failure.reline oneLine) =
        ((i.evaluate config e).1.map (Value.reline oneLine)).mapError (Failure.reline oneLine) ∧
      (i.evaluate config e).2.SameButLines (i'.evaluate config e').2 := by
  obtain ⟨i₀, own, other⟩ := iff_relined.mp h
  obtain ⟨ended, left⟩ := own.evaluate config e
  obtain ⟨ended', left'⟩ := other.evaluate config e'
  rw [tree] at ended' left'
  exact ⟨ended'.symm.trans ended, iff_relined.mpr ⟨_, left, left'⟩⟩

end Interpreter.SameButLines

namespace EndsAlike

variable {out out' out'' : Except Failure Unit × Interpreter}

theorem symm (h : EndsAlike out out') : EndsAlike out' out :=
  ⟨h.result.symm, h.interpreter.symm⟩

theorem trans (h : EndsAlike out out') (h' : EndsAlike out' out'') : EndsAlike out out'' :=
  ⟨h'.result.trans h.result, h.interpreter.trans h'.interpreter⟩

end EndsAlike

section

variable (line : Nat → Nat)

def StaticError.reline : StaticError → StaticError
  | .lexical e => .lexical { e with line := line e.line }
  | .syntactic e => .syntactic (e.reline line)
  | .binding e => .binding (e.reline line)

def SessionError.reline : SessionError → SessionError
  | .rejected errors => .rejected (errors.map (StaticError.reline line))
  | .malformed e => .malformed (e.reline line)
  | .failed f => .failed (f.reline line)

end

theorem readProgram_clean {source : String} {labels : Labels} (clean : (scan source).faults = [])
    {parsed : Parsed (List SyntaxError) (List Stmt)}
    (parses : parseProgram labels (scan source).tokens (scan source).lastLine = parsed) :
    readProgram labels source = ⟨parsed.labels, parsed.result.mapError (List.map .syntactic)⟩ := by
  simp only [readProgram, clean, List.map_nil, parses]
  cases parsed.result <;> rfl

private theorem readExpression_clean {source : String} {labels : Labels}
    (clean : (scan source).faults = []) {parsed : Parsed SyntaxError Expr}
    (parses : parseExpression labels (scan source).tokens (scan source).lastLine = parsed) :
    readExpression labels source = ⟨parsed.labels, parsed.result.mapError .malformed⟩ := by
  simp only [readExpression, clean, parses]

private theorem Parsed.eq_of_reline_eq {ε ε' α : Type} [Relinable α] {line : Nat → Nat}
    {wrong : ε → ε}
    {wrong' : ε' → ε'} {tell : ε → ε'} (commute : ∀ e, wrong' (tell e) = tell (wrong e))
    {p p' : Parsed ε α} (same : p'.reline line wrong = p.reline line wrong) :
    p'.labels = p.labels ∧
      ((p'.result.mapError tell).map (relined line)).mapError wrong' =
        ((p.result.mapError tell).map (relined line)).mapError wrong' := by
  obtain ⟨labels, result⟩ := p
  obtain ⟨labels', result'⟩ := p'
  obtain ⟨rfl, same⟩ := Parsed.mk.inj same
  refine ⟨rfl, ?_⟩
  have told : ∀ r : Except ε α, ((r.mapError tell).map (relined line)).mapError wrong' =
      ((r.map (relined line)).mapError wrong).mapError tell := by
    rintro (e | a)
    · exact congrArg Except.error (commute e)
    · rfl
  rw [told, told, same]

section

variable {source source' : String} (same : (scan source).SameButLines (scan source'))
  {labels labels' : Labels} (start : labels' = labels)

include same start

private theorem Scanned.SameButLines.readProgram :
    (readProgram labels' source').labels = (readProgram labels source).labels ∧
      ((readProgram labels' source').result.map (Stmt.relineAll oneLine)).mapError
          (List.map (StaticError.reline oneLine)) =
        ((readProgram labels source).result.map (Stmt.relineAll oneLine)).mapError
          (List.map (StaticError.reline oneLine)) := by
  subst start
  have parsed := parseProgram_reline oneLine labels' (scan source).tokens (scan source).lastLine
  have parsed' := parseProgram_reline oneLine labels' (scan source').tokens (scan source').lastLine
  rw [same.tokens] at parsed'
  rw [readProgram_clean same.faults rfl, readProgram_clean same.faults' rfl]
  have both := parsed'.symm.trans parsed
  generalize parseProgram labels' (scan source).tokens (scan source).lastLine = p,
    parseProgram labels' (scan source').tokens (scan source').lastLine = p' at both
  have told : ∀ errors : List SyntaxError,
      (errors.map StaticError.syntactic).map (StaticError.reline oneLine) =
        (errors.map (SyntaxError.reline oneLine)).map .syntactic := by
    intro errors
    rw [List.map_map, List.map_map]
    rfl
  exact Parsed.eq_of_reline_eq told both

private theorem Scanned.SameButLines.readExpression :
    (readExpression labels' source').labels = (readExpression labels source).labels ∧
      ((readExpression labels' source').result.map (Expr.reline oneLine)).mapError
          (SessionError.reline oneLine) =
        ((readExpression labels source).result.map (Expr.reline oneLine)).mapError
          (SessionError.reline oneLine) := by
  subst start
  have parsed := parseExpression_reline oneLine labels' (scan source).tokens (scan source).lastLine
  have parsed' :=
    parseExpression_reline oneLine labels' (scan source').tokens (scan source').lastLine
  rw [same.tokens] at parsed'
  rw [readExpression_clean same.faults rfl, readExpression_clean same.faults' rfl]
  have both := parsed'.symm.trans parsed
  generalize parseExpression labels' (scan source).tokens (scan source).lastLine = p,
    parseExpression labels' (scan source').tokens (scan source').lastLine = p' at both
  have told : ∀ e, SessionError.reline oneLine (.malformed e) = .malformed (e.reline oneLine) :=
    fun _ => rfl
  exact Parsed.eq_of_reline_eq told both

end

/-! What is done on both sides. -/

theorem failed_alike {α : Type} {r r' : Except Failure α}
    (h : r'.mapError (Failure.reline oneLine) = r.mapError (Failure.reline oneLine)) :
    (r'.mapError .failed).mapError (SessionError.reline oneLine) =
        (r.mapError .failed).mapError (SessionError.reline oneLine) ∧
      r'.isOk = r.isOk := by
  have told : ∀ r : Except Failure α, (r.mapError .failed).mapError (SessionError.reline oneLine) =
      (r.mapError (Failure.reline oneLine)).mapError .failed := by
    rintro (e | a) <;> rfl
  have ended : ∀ r : Except Failure α, (r.mapError (Failure.reline oneLine)).isOk = r.isOk := by
    rintro (e | a) <;> rfl
  exact ⟨by rw [told, told, h], by rw [← ended r', ← ended r, h]⟩

private theorem ended_alike {ε α : Type} {f : α → α} {tell : ε → ε} {r r' : Except ε α}
    (h : (r'.map f).mapError tell = (r.map f).mapError tell) :
    (∃ e e', r = .error e ∧ r' = .error e' ∧ tell e' = tell e) ∨
      ∃ a a', r = .ok a ∧ r' = .ok a' ∧ f a' = f a := by
  cases r with
  | error e =>
    cases r' with
    | error e' => exact .inl ⟨e, e', rfl, rfl, Except.error.inj h⟩
    | ok a' => cases h
  | ok a =>
    cases r' with
    | error e' => cases h
    | ok a' => exact .inr ⟨a, a', rfl, rfl, Except.ok.inj h⟩

private theorem map_failed {α : Type} (f : α → α) (r : Except Failure α) :
    (r.mapError SessionError.failed).map f = (r.map f).mapError .failed := by
  cases r <;> rfl

private theorem isOk_map {ε α : Type} (f : α → α) (r : Except ε α) : (r.map f).isOk = r.isOk := by
  cases r <;> rfl

namespace Session.SameButLines

variable {s s' : Session} (h : s.SameButLines s') (config : Config) {source source' : String}
  (same : (scan source).SameButLines (scan source'))

include h

private theorem interpreter : s.interpreter.SameButLines s'.interpreter := ⟨h.machine, h.distances⟩

theorem run_read {p p' : List Stmt} (read : (readProgram s.labels source).result = .ok p)
    (read' : (readProgram s'.labels source').result = .ok p')
    (tree : Stmt.relineAll oneLine p' = Stmt.relineAll oneLine p)
    (handed : (readProgram s'.labels source').labels = (readProgram s.labels source).labels) :
    (s'.run config source').1.mapError (SessionError.reline oneLine) =
        (s.run config source).1.mapError (SessionError.reline oneLine) ∧
      (s.run config source).2.SameButLines (s'.run config source').2 := by
  obtain ⟨told, resolved⟩ := h.interpreter.resolve tree
  by_cases bound : (s.interpreter.resolve p).1 = []
  · have bound' : (s'.interpreter.resolve p').1 = [] := by simpa [bound] using told
    have ended := resolved.execute config tree
    rw [run_executed config s source read bound, run_executed config s' source' read' bound']
    obtain ⟨failed, ok⟩ := failed_alike ended.result
    exact ⟨failed, ended.interpreter.machine, ended.interpreter.distances, handed, h.hadError,
      congrArg₂ (fun had ok => had || !ok) h.hadRuntimeError ok⟩
  · have unbound' : (s'.interpreter.resolve p').1 ≠ [] := fun none => bound (by
      simpa [none] using told)
    rw [run_unbound config s source read bound, run_unbound config s' source' read' unbound']
    refine ⟨congrArg (fun errors => Except.error (SessionError.rejected errors)) ?_,
      resolved.machine, resolved.distances, handed, rfl, h.hadRuntimeError⟩
    have binding := congrArg (List.map StaticError.binding) told
    rw [List.map_map] at binding ⊢
    rw [List.map_map] at binding ⊢
    exact binding

theorem evaluate_read {e e' : Expr} (read : (readExpression s.labels source).result = .ok e)
    (read' : (readExpression s'.labels source').result = .ok e')
    (tree : e'.reline oneLine = e.reline oneLine)
    (handed : (readExpression s'.labels source').labels =
      (readExpression s.labels source).labels) :
    ((s'.evaluate config source').1.map (Value.reline oneLine)).mapError
          (SessionError.reline oneLine) =
        ((s.evaluate config source).1.map (Value.reline oneLine)).mapError
          (SessionError.reline oneLine) ∧
      (s.evaluate config source).2.SameButLines (s'.evaluate config source').2 := by
  obtain ⟨ended, left⟩ := h.interpreter.evaluate config tree
  rw [Session.evaluate_read config s source read, Session.evaluate_read config s' source' read']
  obtain ⟨failed, ok⟩ := failed_alike ended
  rw [isOk_map, isOk_map] at ok
  rw [← map_failed, ← map_failed] at failed
  exact ⟨failed, left.machine, left.distances, handed, h.hadError,
    congrArg₂ (fun had ok => had || !ok) h.hadRuntimeError ok⟩

include same

theorem run :
    (s'.run config source').1.mapError (SessionError.reline oneLine) =
        (s.run config source).1.mapError (SessionError.reline oneLine) ∧
      (s.run config source).2.SameButLines (s'.run config source').2 := by
  obtain ⟨handed, results⟩ := same.readProgram h.labels
  rcases ended_alike results with ⟨errors, errors', read, read', told⟩ | ⟨p, p', read, read', tree⟩
  · rw [run_unread config s source read, run_unread config s' source' read']
    exact ⟨congrArg (fun errors => Except.error (SessionError.rejected errors)) told,
      { h with
        labels := handed
        hadError := rfl }⟩
  · exact h.run_read config read read' tree handed

theorem evaluate :
    ((s'.evaluate config source').1.map (Value.reline oneLine)).mapError
          (SessionError.reline oneLine) =
        ((s.evaluate config source).1.map (Value.reline oneLine)).mapError
          (SessionError.reline oneLine) ∧
      (s.evaluate config source).2.SameButLines (s'.evaluate config source').2 := by
  obtain ⟨handed, results⟩ := same.readExpression h.labels
  rcases ended_alike results with ⟨e, e', read, read', told⟩ | ⟨e, e', read, read', tree⟩
  · rw [evaluate_unread config s source read, evaluate_unread config s' source' read']
    exact ⟨congrArg Except.error told,
      { h with
        labels := handed
        hadError := rfl }⟩
  · exact h.evaluate_read config read read' tree handed

end Session.SameButLines

end LoxLang
