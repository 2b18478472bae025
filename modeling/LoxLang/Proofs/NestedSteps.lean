import LoxLang.Proofs.SingleSteps

/-!
The bound on nested steps.  An execution that does not reach its bound is the same under every
greater one, and one that reaches it has printed by then what it goes on from under a greater one.
So the bound decides how far an execution gets, and nothing else.
-/

set_option autoImplicit false
set_option relaxedAutoImplicit false

namespace LoxLang

def Machine.lines (m : Machine) : List String := m.printed.toList

def Exhausted {α : Type} (r : Except Interrupt α) : Prop := r = .error (.failure .exhausted)

/-- A second execution goes on where the first one reaches its bound, and is the same if that does
not happen.  The second one takes back no printed line. -/
structure GoesOn {α : Type} (act act' : EvalM α) : Prop where
  prints : ∀ m, m.lines <+: (act'.outcome m).2.lines
  further : ∀ m, act'.outcome m = act.outcome m ∨
    Exhausted (act.outcome m).1 ∧ (act.outcome m).2.lines <+: (act'.outcome m).2.lines

namespace GoesOn

open EvalM

variable {α β : Type} {act act' : EvalM α}

private theorem refl (prints : ∀ m, m.lines <+: (act.outcome m).2.lines) : GoesOn act act :=
  ⟨prints, fun _ => .inl rfl⟩

theorem pure (a : α) : GoesOn (Pure.pure a) (Pure.pure a) := refl fun _ => List.prefix_rfl

private theorem throw (i : Interrupt) : GoesOn (throw i : EvalM α) (throw i) :=
  refl fun _ => List.prefix_rfl

private theorem get : GoesOn MonadState.get MonadState.get := refl fun _ => List.prefix_rfl

private theorem modify {f : Machine → Machine} (same : ∀ m, (f m).printed = m.printed) :
    GoesOn (modify f) (modify f) := by
  refine refl fun m => ?_
  have lines : (f m).lines = m.lines := congrArg Array.toList (same m)
  exact lines ▸ List.prefix_rfl

theorem onStore (step : Store → α × Store) : GoesOn (onStore step) (onStore step) :=
  refl fun _ => List.prefix_rfl

/-- An execution whose bound is reached at once. -/
theorem exhausted (prints : ∀ m, m.lines <+: (act.outcome m).2.lines) :
    GoesOn (MonadExcept.throw (.failure .exhausted)) act :=
  ⟨prints, fun m => .inr ⟨rfl, prints m⟩⟩

theorem bind {next next' : α → EvalM β} (h : GoesOn act act')
    (h' : ∀ a, GoesOn (next a) (next' a)) : GoesOn (act >>= next) (act' >>= next') := by
  have onward : ∀ m, (act'.outcome m).2.lines <+: ((act' >>= next').outcome m).2.lines := by
    intro m
    rw [outcome_bind]
    rcases act'.outcome m with ⟨r, m'⟩
    cases r with
    | ok a => exact (h' a).prints m'
    | error i => exact List.prefix_rfl
  refine ⟨fun m => (h.prints m).trans (onward m), fun m => ?_⟩
  have onward := onward m
  rcases h.further m with same | ⟨reached, lines⟩
  · rw [outcome_bind, outcome_bind, same]
    rcases act.outcome m with ⟨r, m'⟩
    cases r with
    | ok a => exact (h' a).further m'
    | error i => exact .inl rfl
  · -- What stands behind the step does not matter: the step itself is cut short.
    have cut : (act >>= next).outcome m = (.error (.failure .exhausted), (act.outcome m).2) := by
      rw [outcome_bind]
      rcases outcome : act.outcome m with ⟨r, m'⟩
      rw [outcome] at reached
      obtain rfl : r = _ := reached
      rfl
    rw [cut]
    exact .inr ⟨rfl, lines.trans onward⟩

theorem get_bind {next next' : Machine → EvalM β} (h : ∀ m, GoesOn (next m) (next' m)) :
    GoesOn (MonadState.get >>= next) (MonadState.get >>= next') :=
  get.bind h

theorem inScope (scope : Scope) (h : GoesOn act act') :
    GoesOn (inScope scope act) (inScope scope act') := by
  refine ⟨fun m => h.prints { m with scope }, fun m => ?_⟩
  rw [outcome_inScope, outcome_inScope]
  rcases h.further { m with scope } with same | cut
  · rw [same]
    exact .inl rfl
  · exact .inr cut

private theorem asCall (h : GoesOn act act') : GoesOn (asCall act) (asCall act') := by
  refine ⟨fun m => h.prints { m with depth := m.depth + 1 }, fun m => ?_⟩
  rw [outcome_asCall, outcome_asCall]
  rcases h.further { m with depth := m.depth + 1 } with same | cut
  · rw [same]
    exact .inl rfl
  · exact .inr cut

private theorem catchReturn {act act' : EvalM Unit} (h : GoesOn act act') :
    GoesOn (catchReturn act) (catchReturn act') := by
  refine ⟨fun m => outcome_catchReturn_snd act' m ▸ h.prints m, fun m => ?_⟩
  rcases h.further m with same | ⟨reached, lines⟩
  · rw [outcome_catchReturn, outcome_catchReturn, same]
    exact .inl rfl
  · refine .inr ⟨?_, ?_⟩
    · rw [outcome_catchReturn]
      rcases outcome : act.outcome m with ⟨r, m'⟩
      rw [outcome] at reached
      obtain rfl : r = _ := reached
      rfl
    · rw [outcome_catchReturn_snd, outcome_catchReturn_snd]
      exact lines

/-! The steps that touch the state. -/

private theorem fault (token : Token) (f : RuntimeFault) :
    GoesOn (fault token f : EvalM α) (EvalM.fault token f) :=
  throw _

private theorem print (sink : Sink) (line : String) : GoesOn (print sink line) (print sink line) :=
  by
  cases sink with
  | working => exact refl fun m => by simp [EvalM.print, outcome_modify, Machine.lines]
  | broken text => exact throw _

private theorem define (name : String) (v : Value) : GoesOn (define name v) (define name v) :=
  modify fun _ => rfl

private theorem setField (o : Object) (name : String) (v : Value) :
    GoesOn (setField o name v) (setField o name v) :=
  modify fun _ => rfl

private theorem readClock (clock : Nat → Float) : GoesOn (readClock clock) (readClock clock) :=
  refl fun _ => List.prefix_rfl

private theorem composed : Composed fun act => GoesOn act act where
  pure := pure
  fault token f _ := fault token f
  get := get
  bindTo _ _ := onStore _
  bind := bind

private theorem ofResult (token : Token) (r : Except RuntimeFault α) :
    GoesOn (ofResult token r) (ofResult token r) :=
  composed.ofResult fun f _ => fault token f

private theorem assign (D : Distances) (id : ExprId) (name : Token) (v : Value) :
    GoesOn (assign D id name v) (assign D id name v) :=
  composed.assign fun _ => modify fun _ => rfl

private theorem expectCallable (limit : Option Nat) (v : Value) (given : Nat) (paren : Token) :
    GoesOn (expectCallable limit v given paren) (expectCallable limit v given paren) :=
  composed.expectCallable (fun _ token => fault token _) v given paren

private theorem declareClass (name : Token) (superclass : Option Class)
    (methods : List FunctionDecl) :
    GoesOn (declareClass name superclass methods) (declareClass name superclass methods) :=
  composed.declareClass (fun _ _ => onStore _) (onStore _) define name superclass methods

end GoesOn

structure StepsFurther (w : Surroundings) (bound bound' : Nat) : Prop where
  expr : ∀ e, GoesOn (evalExpr w bound e) (evalExpr w bound' e)
  exprs : ∀ es, GoesOn (evalExprs w bound es) (evalExprs w bound' es)
  apply : ∀ c args, GoesOn (applyCallable w bound c args) (applyCallable w bound' c args)
  invoke : ∀ f args, GoesOn (invokeClosure w bound f args) (invokeClosure w bound' f args)
  stmt : ∀ s, GoesOn (execStmt w bound s) (execStmt w bound' s)
  option : ∀ e, GoesOn (evalOption w bound e) (evalOption w bound' e)
  stmts : ∀ ss, GoesOn (execStmts w bound ss) (execStmts w bound' ss)
  loop : ∀ c s, GoesOn (execLoop w bound c s) (execLoop w bound' c s)

namespace StepsFurther

open GoesOn

variable {w : Surroundings} {bound bound' : Nat}

private theorem zero (h : StepsFurther w bound' bound') : StepsFurther w 0 bound' where
  expr e := by
    rw [evalExpr]
    exact exhausted (h.expr e).prints
  exprs es := by
    rw [evalExprs]
    exact exhausted (h.exprs es).prints
  apply c args := by
    rw [applyCallable]
    exact exhausted (h.apply c args).prints
  invoke f args := by
    rw [invokeClosure]
    exact exhausted (h.invoke f args).prints
  stmt s := by
    rw [execStmt]
    exact exhausted (h.stmt s).prints
  option e := by
    rw [evalOption]
    exact exhausted (h.option e).prints
  stmts ss := by
    rw [execStmts]
    exact exhausted (h.stmts ss).prints
  loop c s := by
    rw [execLoop]
    exact exhausted (h.loop c s).prints

private theorem expr_succ (h : StepsFurther w bound bound') (e : Expr) :
    GoesOn (evalExpr w (bound + 1) e) (evalExpr w (bound' + 1) e) := by
  unfold evalExpr
  cases e with
  | literal l => exact pure _
  | grouping inner => exact h.expr inner
  | unary operator operand => exact (h.expr operand).bind fun v => ofResult _ _
  | binary operator left right =>
    exact (h.expr left).bind fun a => (h.expr right).bind fun b => ofResult _ _
  | logical operator left right =>
    refine (h.expr left).bind fun a => ?_
    dsimp only
    generalize (if operator.kind = .orWord then a.truthy else !a.truthy) = decided
    cases decided with
    | true => exact pure a
    | false => exact h.expr right
  | «variable» id name => exact composed.lookUp _ id name
  | assign id name value =>
    exact (h.expr value).bind fun v => (assign _ id name v).bind fun _ => pure v
  | call callee paren args =>
    refine (h.expr callee).bind fun f => (h.exprs args).bind fun args => ?_
    exact (expectCallable _ f args.length paren).bind fun c => asCall (h.apply c args)
  | get object name => exact (h.expr object).bind fun v => composed.getProperty v name
  | set object name value =>
    refine (h.expr object).bind fun v => (composed.expectObject v name).bind fun o => ?_
    exact (h.expr value).bind fun u => (setField o _ u).bind fun _ => pure u
  | this id keyword => exact composed.lookUp _ id keyword
  | super id keyword method => exact composed.superMethod _ id keyword method

private theorem exprs_succ (h : StepsFurther w bound bound') (es : List Expr) :
    GoesOn (evalExprs w (bound + 1) es) (evalExprs w (bound' + 1) es) := by
  unfold evalExprs
  cases es with
  | nil => exact pure _
  | cons e es => exact (h.expr e).bind fun v => (h.exprs es).bind fun vs => pure _

private theorem apply_succ (h : StepsFurther w bound bound') (c : Callable)
    (args : List Value) : GoesOn (applyCallable w (bound + 1) c args)
      (applyCallable w (bound' + 1) c args) := by
  unfold applyCallable
  cases c with
  | native f =>
    cases f
    exact readClock _
  | function f => exact h.invoke f args
  | ofClass k =>
    refine (onStore _).bind fun o => ?_
    cases k.method? initializerName with
    | none => exact pure _
    | some i => exact (onStore _).bind fun f => (h.invoke f args).bind fun _ => pure _

private theorem invoke_succ (h : StepsFurther w bound bound') (f : Closure)
    (args : List Value) : GoesOn (invokeClosure w (bound + 1) f args)
      (invokeClosure w (bound' + 1) f args) := by
  unfold invokeClosure
  refine (onStore _).bind fun scope => ?_
  refine (inScope scope (catchReturn (h.stmts f.decl.body))).bind fun r => ?_
  split
  · exact bind (refl fun _ => List.prefix_rfl) fun _ => pure _
  · exact pure _

private theorem stmt_succ (h : StepsFurther w bound bound') (s : Stmt) :
    GoesOn (execStmt w (bound + 1) s) (execStmt w (bound' + 1) s) := by
  unfold execStmt
  cases s with
  | expression e => exact (h.expr e).bind fun _ => pure _
  | print e => exact (h.expr e).bind fun v => print _ _
  | var name initializer => exact (h.option initializer).bind fun v => define _ _
  | block body =>
    exact get_bind fun m => (onStore _).bind fun scope => inScope scope (h.stmts body)
  | branch condition thenBranch elseBranch =>
    refine (h.expr condition).bind fun v => ?_
    split
    · exact h.stmt thenBranch
    · cases elseBranch with
      | none => exact pure _
      | some s => exact h.stmt s
  | loop condition body => exact h.loop condition body
  | function decl => exact get_bind fun m => define _ _
  | ret keyword value => exact (h.option value).bind fun v => throw _
  | classDecl name superclass methods =>
    cases superclass with
    | none => exact declareClass name none methods
    | some e =>
      refine (h.expr e).bind fun v => ?_
      split
      · exact declareClass name _ methods
      · exact fault _ _

private theorem option_succ (h : StepsFurther w bound bound') (e : Option Expr) :
    GoesOn (evalOption w (bound + 1) e) (evalOption w (bound' + 1) e) := by
  unfold evalOption
  cases e with
  | none => exact pure _
  | some e => exact h.expr e

private theorem stmts_succ (h : StepsFurther w bound bound') (ss : List Stmt) :
    GoesOn (execStmts w (bound + 1) ss) (execStmts w (bound' + 1) ss) := by
  unfold execStmts
  cases ss with
  | nil => exact pure _
  | cons s ss => exact (h.stmt s).bind fun _ => h.stmts ss

private theorem loop_succ (h : StepsFurther w bound bound') (c : Expr) (s : Stmt) :
    GoesOn (execLoop w (bound + 1) c s) (execLoop w (bound' + 1) c s) := by
  unfold execLoop
  refine (h.expr c).bind fun v => ?_
  split
  · exact (h.stmt s).bind fun _ => h.loop c s
  · exact pure _

private theorem succ (h : StepsFurther w bound bound') :
    StepsFurther w (bound + 1) (bound' + 1) :=
  ⟨h.expr_succ, h.exprs_succ, h.apply_succ, h.invoke_succ, h.stmt_succ, h.option_succ,
    h.stmts_succ, h.loop_succ⟩

theorem refl (w : Surroundings) (bound : Nat) : StepsFurther w bound bound := by
  induction bound with
  | zero =>
    constructor
    case expr => exact fun e => by unfold evalExpr; exact throw _
    case exprs => exact fun es => by unfold evalExprs; exact throw _
    case apply => exact fun c args => by unfold applyCallable; exact throw _
    case invoke => exact fun f args => by unfold invokeClosure; exact throw _
    case stmt => exact fun s => by unfold execStmt; exact throw _
    case option => exact fun e => by unfold evalOption; exact throw _
    case stmts => exact fun ss => by unfold execStmts; exact throw _
    case loop => exact fun c s => by unfold execLoop; exact throw _
  | succ bound ih => exact ih.succ

theorem of_le (w : Surroundings) {bound bound' : Nat} (le : bound ≤ bound') :
    StepsFurther w bound bound' := by
  induction bound generalizing bound' with
  | zero => exact zero (refl _ bound')
  | succ bound ih =>
    obtain ⟨bound', rfl⟩ : ∃ b, bound' = b + 1 := ⟨bound' - 1, by omega⟩
    exact (ih (by omega)).succ

end StepsFurther

def Surroundings.within (w : Surroundings) (limit : Nat) : Surroundings :=
  { w with config := { w.config with bound := limit } }

namespace EvalM

/-! The limit that the surroundings name is not the bound that an execution keeps to. -/

section

variable (w : Surroundings) (limit : Nat)

mutual

theorem evalExpr_within : ∀ (bound : Nat) (e : Expr),
    evalExpr (w.within limit) bound e = evalExpr w bound e
  | 0, _ => by rw [evalExpr, evalExpr]
  | bound + 1, e => by
    unfold evalExpr
    simp only [evalExpr_within bound, evalExprs_within bound, applyCallable_within bound]
    rfl

private theorem evalExprs_within : ∀ (bound : Nat) (es : List Expr),
    evalExprs (w.within limit) bound es = evalExprs w bound es
  | 0, _ => by rw [evalExprs, evalExprs]
  | bound + 1, [] => by rw [evalExprs, evalExprs]
  | bound + 1, e :: es => by
    rw [evalExprs, evalExprs, evalExpr_within bound, evalExprs_within bound]

private theorem applyCallable_within : ∀ (bound : Nat) (c : Callable) (args : List Value),
    applyCallable (w.within limit) bound c args = applyCallable w bound c args
  | 0, _, _ => by rw [applyCallable, applyCallable]
  | bound + 1, c, args => by
    unfold applyCallable
    simp only [invokeClosure_within bound]
    rfl

private theorem invokeClosure_within : ∀ (bound : Nat) (f : Closure) (args : List Value),
    invokeClosure (w.within limit) bound f args = invokeClosure w bound f args
  | 0, _, _ => by rw [invokeClosure, invokeClosure]
  | bound + 1, f, args => by rw [invokeClosure, invokeClosure, execStmts_within bound]

theorem execStmt_within : ∀ (bound : Nat) (s : Stmt),
    execStmt (w.within limit) bound s = execStmt w bound s
  | 0, _ => by rw [execStmt, execStmt]
  | bound + 1, s => by
    unfold execStmt
    simp only [evalExpr_within bound, evalOption_within bound, execStmt_within bound,
      execStmts_within bound, execLoop_within bound]
    rfl

private theorem evalOption_within : ∀ (bound : Nat) (e : Option Expr),
    evalOption (w.within limit) bound e = evalOption w bound e
  | 0, _ => by rw [evalOption, evalOption]
  | bound + 1, none => by rw [evalOption, evalOption]
  | bound + 1, some e => by rw [evalOption, evalOption, evalExpr_within bound]

private theorem execStmts_within : ∀ (bound : Nat) (ss : List Stmt),
    execStmts (w.within limit) bound ss = execStmts w bound ss
  | 0, _ => by rw [execStmts, execStmts]
  | bound + 1, [] => by rw [execStmts, execStmts]
  | bound + 1, s :: ss => by
    rw [execStmts, execStmts, execStmt_within bound, execStmts_within bound]

private theorem execLoop_within : ∀ (bound : Nat) (c : Expr) (s : Stmt),
    execLoop (w.within limit) bound c s = execLoop w bound c s
  | 0, _, _ => by rw [execLoop, execLoop]
  | bound + 1, c, s => by
    rw [execLoop, execLoop, evalExpr_within bound, execStmt_within bound, execLoop_within bound]

end

end

end EvalM

namespace Interpreter

private theorem execute_prints (config : Config) (i : Interpreter) (ss : List Stmt) :
    i.machine.lines <+: (execute config i ss).2.machine.lines := by
  induction ss generalizing i with
  | nil => exact List.prefix_rfl
  | cons s ss ih =>
    have first := ((StepsFurther.refl (i.surroundings config) config.bound).stmt s).prints i.machine
    rw [execute_cons]
    generalize (execStmt (i.surroundings config) config.bound s).outcome i.machine = out at first ⊢
    rcases out with ⟨(f | v) | v, m⟩
    · exact first
    · exact first.trans (ih { i with machine := m })
    · exact first.trans (ih { i with machine := m })

/-- A program that reaches its bound goes on from there under a greater one, and one that does not
is the same. -/
theorem execute_further {config : Config} {limit : Nat} (le : config.bound ≤ limit)
    (i : Interpreter) (ss : List Stmt) :
    execute { config with bound := limit } i ss = execute config i ss ∨
      (execute config i ss).1 = .error .exhausted ∧ (execute config i ss).2.machine.lines <+:
        (execute { config with bound := limit } i ss).2.machine.lines := by
  induction ss generalizing i with
  | nil => exact .inl rfl
  | cons s ss ih =>
    have around : i.surroundings { config with bound := limit } =
        (i.surroundings config).within limit := rfl
    have step := ((StepsFurther.of_le (i.surroundings config) le).stmt s).further i.machine
    have after (out : Except Interrupt Unit × Machine) (cut : Exhausted out.1) :
        out = (.error (.failure .exhausted), out.2) := Prod.ext cut rfl
    rw [execute_cons, execute_cons, around, EvalM.execStmt_within]
    rcases step with same | ⟨cut, lines⟩
    · rw [same]
      rcases (execStmt (i.surroundings config) config.bound s).outcome i.machine with
        ⟨(f | v) | v, m⟩
      · exact .inl rfl
      · exact ih _
      · exact ih _
    · -- Here the program stops, and under the greater bound it prints no less.
      rw [after _ cut]
      refine .inr ⟨rfl, lines.trans ?_⟩
      rcases (execStmt (i.surroundings config) limit s).outcome i.machine with ⟨(f | v) | v, m⟩
      · exact List.prefix_rfl
      · exact execute_prints { config with bound := limit } { i with machine := m } ss
      · exact execute_prints { config with bound := limit } { i with machine := m } ss

end Interpreter

end LoxLang
