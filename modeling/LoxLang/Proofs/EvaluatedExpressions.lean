import LoxLang.Proofs.NestedSteps
import LoxLang.Proofs.PlainSession
import LoxLang.Proofs.PrintedExpressions
import LoxLang.Proofs.ResolveWalk
import LoxLang.Proofs.SessionInvariants

/-!
Evaluating an expression and running the statement that prints it.  At the top level the resolver
records nothing for an expression, so both look every name up alike; and no expression ends with a
`return`, so both end alike, and leave the same session behind, the printed line apart.
-/

set_option autoImplicit false
set_option relaxedAutoImplicit false

namespace LoxLang

/-- An execution that no `return` ends. -/
def Unreturned {α : Type} (act : EvalM α) : Prop :=
  ∀ m v, (act.outcome m).1 ≠ .error (.returned v)

namespace Unreturned

open EvalM

variable {α β : Type} {act : EvalM α}

theorem pure (a : α) : Unreturned (Pure.pure a) := by
  intro m v h
  cases h

theorem failure (f : Failure) : Unreturned (throw (.failure f) : EvalM α) := by
  intro m v h
  cases h

theorem get : Unreturned MonadState.get := by
  intro m v h
  cases h

theorem modify (f : Machine → Machine) : Unreturned (modify f) := by
  intro m v h
  cases h

theorem onStore (step : Store → α × Store) : Unreturned (onStore step) := by
  intro m v h
  cases h

theorem bind {next : α → EvalM β} (h : Unreturned act) (h' : ∀ a, Unreturned (next a)) :
    Unreturned (act >>= next) := by
  intro m v
  rw [outcome_bind]
  rcases outcome : act.outcome m with ⟨i | a, m'⟩
  · have first := h m v
    rw [outcome] at first
    simpa using first
  · exact h' a m' v

private theorem asCall (h : Unreturned act) : Unreturned (asCall act) :=
  fun m v => h { m with depth := m.depth + 1 } v

private theorem inScope (scope : Scope) (h : Unreturned act) : Unreturned (inScope scope act) :=
  fun m v => h { m with scope } v

private theorem catchReturn (act : EvalM Unit) : Unreturned (catchReturn act) := by
  intro m v
  rw [outcome_catchReturn]
  rcases act.outcome m with ⟨(_ | _) | _, m'⟩ <;> simp

theorem fault (token : Token) (f : RuntimeFault) : Unreturned (fault token f : EvalM α) :=
  failure _

private theorem readClock (clock : Nat → Float) : Unreturned (readClock clock) := by
  intro m v h
  cases h

private theorem composed : Composed Unreturned where
  pure := pure
  fault token f _ := fault token f
  get := get
  bindTo _ _ := onStore _
  bind := bind

private theorem ofResult (token : Token) (r : Except RuntimeFault α) : Unreturned
    (ofResult token r) :=
  composed.ofResult fun f _ => fault token f

private theorem assign (D : Distances) (id : ExprId) (name : Token) (v : Value) :
    Unreturned (assign D id name v) :=
  composed.assign fun _ => modify _

private theorem expectCallable (limit : Option Nat) (v : Value) (given : Nat) (paren : Token) :
    Unreturned (expectCallable limit v given paren) :=
  composed.expectCallable (fun _ token => fault token _) v given paren

mutual

/-- No expression ends with a `return`. -/
theorem evalExpr (w : Surroundings) : ∀ bound e, Unreturned (evalExpr w bound e)
  | 0, _ => by
    unfold LoxLang.evalExpr
    exact failure _
  | bound + 1, e => by
    unfold LoxLang.evalExpr
    cases e with
    | literal l => exact pure _
    | grouping inner => exact evalExpr w bound inner
    | unary operator operand => exact (evalExpr w bound operand).bind fun v => ofResult _ _
    | binary operator left right =>
      exact (evalExpr w bound left).bind fun a => (evalExpr w bound right).bind fun b =>
        ofResult _ _
    | logical operator left right =>
      refine (evalExpr w bound left).bind fun a => ?_
      dsimp only
      generalize (if operator.kind = .orWord then a.truthy else !a.truthy) = decided
      cases decided with
      | true => exact pure a
      | false => exact evalExpr w bound right
    | «variable» id name => exact composed.lookUp _ id name
    | assign id name value =>
      exact (evalExpr w bound value).bind fun v => (assign _ id name v).bind fun _ => pure v
    | call callee paren args =>
      refine (evalExpr w bound callee).bind fun f => (evalExprs w bound args).bind fun args => ?_
      exact (expectCallable _ f args.length paren).bind fun c =>
        asCall (applyCallable w bound c args)
    | get object name => exact (evalExpr w bound object).bind fun v => composed.getProperty v name
    | set object name value =>
      refine (evalExpr w bound object).bind fun v => (composed.expectObject v name).bind fun o => ?_
      exact (evalExpr w bound value).bind fun u => (modify _).bind fun _ => pure u
    | this id keyword => exact composed.lookUp _ id keyword
    | super id keyword method => exact composed.superMethod _ id keyword method

private theorem evalExprs (w : Surroundings) : ∀ bound es, Unreturned (evalExprs w bound es)
  | 0, _ => by
    unfold LoxLang.evalExprs
    exact failure _
  | bound + 1, [] => by
    unfold LoxLang.evalExprs
    exact pure _
  | bound + 1, e :: es => by
    unfold LoxLang.evalExprs
    exact (evalExpr w bound e).bind fun v => (evalExprs w bound es).bind fun vs => pure _

theorem applyCallable (w : Surroundings) : ∀ bound c args, Unreturned (applyCallable w bound c args)
  | 0, _, _ => by
    unfold LoxLang.applyCallable
    exact failure _
  | bound + 1, c, args => by
    unfold LoxLang.applyCallable
    cases c with
    | native f =>
      cases f
      exact readClock _
    | function f => exact invokeClosure w bound f args
    | ofClass k =>
      refine (onStore _).bind fun o => ?_
      cases k.method? initializerName with
      | none => exact pure _
      | some i =>
        exact (onStore _).bind fun f => (invokeClosure w bound f args).bind fun _ => pure _

theorem invokeClosure (w : Surroundings) : ∀ bound f args, Unreturned (invokeClosure w bound f args)
  | 0, _, _ => by
    unfold LoxLang.invokeClosure
    exact failure _
  | bound + 1, f, args => by
    unfold LoxLang.invokeClosure
    refine (onStore _).bind fun scope => (inScope scope (catchReturn _)).bind fun r => ?_
    split
    · exact composed.store.bind fun _ => pure _
    · exact pure _

end

end Unreturned

mutual

private theorem Walk.expr_unbound (c : ClassContext) : ∀ e,
    (Walk.expr c [] e).filterMap Note.binding? = []
  | .literal _ => rfl
  | .grouping inner | .unary _ inner | .get inner _ => Walk.expr_unbound c inner
  | .binary _ left right | .logical _ left right => by
    rw [Walk.expr, List.filterMap_append, Walk.expr_unbound c left, Walk.expr_unbound c right]
    rfl
  | .variable _ _ => rfl
  | .assign _ _ value => by
    rw [Walk.expr, List.filterMap_append, Walk.expr_unbound c value]
    rfl
  | .call callee _ args => by
    rw [Walk.expr, List.filterMap_append, Walk.expr_unbound c callee, Walk.exprs_unbound c args]
    rfl
  | .set object _ value => by
    rw [Walk.expr, List.filterMap_append, Walk.expr_unbound c value, Walk.expr_unbound c object]
    rfl
  | .this _ _ | .super _ _ _ => by cases c <;> rfl

private theorem Walk.exprs_unbound (c : ClassContext) :
    ∀ es, (Walk.exprs c [] es).filterMap Note.binding? = []
  | [] => rfl
  | e :: es => by
    rw [Walk.exprs, List.filterMap_append, Walk.expr_unbound c e, Walk.exprs_unbound c es]
    rfl

end

namespace Interpreter

private theorem resolve_print (i : Interpreter) (e : Expr) : (i.resolve [.print e]).2 = i := by
  have none : (Walk.program [.print e]).filterMap Note.binding? = [] := by
    rw [Walk.program, Walk.stmts, Walk.stmt, Walk.stmts, List.append_nil, Walk.expr_unbound]
  have same : (LoxLang.resolve i.distances [.print e]).distances = i.distances := by
    rw [resolve_eq, Distances.record, none]
    rfl
  rw [resolve, same]

def showing (i : Interpreter) (line : String) : Interpreter :=
  { i with machine := { i.machine with printed := i.machine.printed.push line } }

private theorem execute_print {config : Config} (working : config.sink = .working) (i : Interpreter)
    (e : Expr) :
    Interpreter.execute { config with bound := config.bound + 1 } i [.print e] =
      match i.evaluate config e with
      | (.ok v, i) => (.ok (), i.showing v.text)
      | (.error f, i) => (.error f, i.atGlobals) := by
  have around : i.surroundings { config with bound := config.bound + 1 } =
      (i.surroundings config).within (config.bound + 1) := rfl
  have step : execStmt (i.surroundings { config with bound := config.bound + 1 })
      (config.bound + 1) (.print e) =
        evalExpr (i.surroundings config) config.bound e >>= fun v =>
          EvalM.print .working v.text := by
    rw [around, execStmt, EvalM.evalExpr_within, ← working]
    rfl
  have stays := Unreturned.evalExpr (i.surroundings config) config.bound e i.machine
  rw [execute_cons, step, EvalM.outcome_bind, evaluate, run_eq]
  generalize (evalExpr (i.surroundings config) config.bound e).outcome i.machine = out at stays ⊢
  rcases out with ⟨(f | v) | v, m⟩
  · rfl
  · exact absurd rfl (stays v)
  · rfl

end Interpreter

namespace Session

def showing (s : Session) (line : String) : Session :=
  { s with interpreter := s.interpreter.showing line }

/-- What a run comes to that prints the value of an evaluation. -/
def printed (evaluated : Except SessionError Value × Session) :
    Except SessionError Unit × Session :=
  match evaluated with
  | (.ok v, s) => (.ok (), s.showing v.text)
  | (.error e, s) => (.error e, s)

private theorem run_printing {config : Config} (working : config.sink = .working) (s : Session)
    {source : String} {e : Expr} (read : (readExpression s.labels source).result = .ok e)
    (bound : (s.interpreter.resolve [.print e]).1 = [])
    (atGlobals : (s.evaluate config source).2.interpreter.machine.scope = .globals) :
    s.run { config with bound := config.bound + 1 } (printing source) =
      printed (s.evaluate config source) := by
  have read' : readProgram s.labels (printing source) =
      ⟨(readExpression s.labels source).labels, .ok [.print e]⟩ :=
    readProgram_printing_iff.mpr (congrArg (Parsed.mk _) read)
  rw [run_executed _ s _ (congrArg Parsed.result read') bound, read']
  rw [evaluate_read config s source read] at atGlobals ⊢
  dsimp only at atGlobals ⊢
  rw [Interpreter.resolve_print, Interpreter.execute_print working]
  generalize s.interpreter.evaluate config e = evaluated at atGlobals ⊢
  rcases evaluated with ⟨f | v, i⟩
  · have stays : i.atGlobals = i := by
      rw [Interpreter.atGlobals, ← atGlobals]
    dsimp only
    rw [stays]
    rfl
  · rfl

end Session

/-- A text is one expression exactly if the program around it is the statement that prints it, with
the same numbers, whichever are handed out next.  From every session the run of that statement, if
it breaks no rule of binding, comes to what the evaluation of the expression does: it prints the
value or ends with the same error, and leaves the same session behind.  It takes one nested step
more, so at the same bound it may be cut short instead. -/
theorem print_runs_as_evaluated (history : List Request) (source : String) :
    (∀ labels after e, readProgram labels (printing source) = ⟨after, .ok [.print e]⟩ ↔
      readExpression labels source = ⟨after, .ok e⟩) ∧
    (∀ labels, readExpression labels source = (readExpression ⟨0, 0⟩ source).shift labels) ∧
    let s := Session.initial.performAll history
    ∀ config e, config.sink = .working → (readExpression s.labels source).result = .ok e →
      (s.interpreter.resolve [.print e]).1 = [] →
      s.run { config with bound := config.bound + 1 } (printing source) =
          Session.printed (s.evaluate config source) ∧
        (s.run config (printing source) = Session.printed (s.evaluate config source) ∨
          (s.run config (printing source)).1 = .error (.failed .exhausted)) := by
  refine ⟨fun _ _ _ => readProgram_printing_iff, fun labels => ?_, ?_⟩
  · have shift := readExpression_plus ⟨0, 0⟩ labels source
    rwa [Labels.plus, Nat.zero_add, Nat.zero_add] at shift
  · intro s config e working read bound
    have atGlobals : (s.evaluate config source).2.interpreter.machine.scope = .globals :=
      Session.perform_scope (Session.performAll_scope rfl history) ⟨config, .evaluate source⟩
    have same := s.run_printing working read bound atGlobals
    refine ⟨same, ?_⟩
    rcases s.run_further config (printing source) (Nat.le_succ config.bound) with further | cut
    · exact .inl (further.symm.trans same)
    · exact .inr cut.1

/-- A call of a function that an earlier run made changes what it captured, and is shown. -/
theorem closure_call_runs_as_evaluated :
    let config : Config := ⟨none, .working, fun _ => 0, 100⟩
    let made := "fun f() \x7b var a = false; fun g() \x7b a = !a; print a; return a; \x7d" ++
      "return g; \x7d var h = f();"
    let s := Session.initial.performAll [⟨config, .run made⟩]
    let run := s.run { config with bound := 101 } (printing "h()")
    run = Session.printed (s.evaluate config "h()") ∧ run.2.lines = ["true", "true"] := by
  intro config made s run
  have checked : (readExpression s.labels "h()").result.toOption.any fun e =>
      (s.interpreter.resolve [.print e]).1 = [] := by decide +kernel
  obtain ⟨e, some, bound⟩ := (Option.any_eq_true _ _).mp checked
  have read : (readExpression s.labels "h()").result = .ok e := by
    cases result : (readExpression s.labels "h()").result with
    | error error =>
      rw [result] at some
      cases some
    | ok e' =>
      rw [result] at some
      exact congrArg Except.ok (Option.some.inj some)
  have same := ((print_runs_as_evaluated [⟨config, .run made⟩] "h()").2.2 config e rfl read
    (of_decide_eq_true bound)).1
  refine ⟨same, ?_⟩
  have shown : (Session.printed (s.evaluate config "h()")).2.lines = ["true", "true"] := by
    decide +kernel
  exact (congrArg (·.2.lines) same).trans shown

end LoxLang
