import LoxLang.Proofs.OperatorResults
import LoxLang.Proofs.SingleSteps

/-!
What holds of every step holds of every execution.  A property of executions that each single step
has, and that is kept wherever steps are put together, is one of all trees and callables, with any
bound on nested steps.  Of the faults one is set apart: without a limit on calls no step stops with
that of too many calls.
-/

set_option autoImplicit false
set_option relaxedAutoImplicit false

namespace LoxLang

/-- A property that the steps of an execution have, given what it is given from outside, and that
is kept where steps are put together. -/
structure Closed (config : Config) (P : ∀ {α : Type}, EvalM α → Prop) : Prop where
  pure : ∀ {α : Type} (a : α), P (Pure.pure a : EvalM α)
  exhausted : ∀ {α : Type}, P (throw (.failure .exhausted) : EvalM α)
  fault : ∀ {α : Type} (token : Token) (f : RuntimeFault),
    (f = .stackOverflow → config.callLimit ≠ none) → P (EvalM.fault token f : EvalM α)
  returned : ∀ {α : Type} (v : Value), P (throw (.returned v) : EvalM α)
  get : P (MonadState.get : EvalM Machine)
  onStore : ∀ {α : Type} (step : Store → α × Store), P (EvalM.onStore step)
  update : ∀ change : Machine → Store, P (modify fun m => { m with store := change m } : EvalM Unit)
  print : ∀ line, P (EvalM.print config.sink line)
  readClock : P (EvalM.readClock config.clock)
  bind : ∀ {α β : Type} {act : EvalM α} {next : α → EvalM β},
    P act → (∀ a, P (next a)) → P (act >>= next)
  inScope : ∀ {α : Type} {act : EvalM α} (scope : Scope), P act → P (EvalM.inScope scope act)
  asCall : ∀ {α : Type} {act : EvalM α}, P act → P (EvalM.asCall act)
  catchReturn : ∀ {act : EvalM Unit}, P act → P (EvalM.catchReturn act)

/-- A property of all executions with a bound on nested steps. -/
structure AllSteps (w : Surroundings) (P : ∀ {α : Type}, EvalM α → Prop) (bound : Nat) : Prop where
  expr : ∀ e, P (evalExpr w bound e)
  exprs : ∀ es, P (evalExprs w bound es)
  apply : ∀ c args, P (applyCallable w bound c args)
  invoke : ∀ f args, P (invokeClosure w bound f args)
  stmt : ∀ s, P (execStmt w bound s)
  option : ∀ e, P (evalOption w bound e)
  stmts : ∀ ss, P (execStmts w bound ss)
  loop : ∀ c s, P (execLoop w bound c s)

theorem applyUnary_ne_overflow (operator : Kind) (v : Value) :
    applyUnary operator v ≠ .error .stackOverflow := by
  intro failed
  rcases applyUnary_error failed with same | same <;> cases same

theorem applyBinary_ne_overflow (operator : Kind) (a b : Value) :
    applyBinary operator a b ≠ .error .stackOverflow := by
  intro failed
  rcases applyBinary_error failed with same | same | same <;> cases same

/-- Failures that come of what an execution is given from outside are the only ones, if they are of
some kind. -/
theorem FailsOnly.closed {config : Config} {C : Failure → Prop} (exhausted : C .exhausted)
    (fault : ∀ e, (e.fault = .stackOverflow → config.callLimit ≠ none) → C (.fault e))
    (broken : ∀ text, config.sink = .broken text → C (.sink text)) :
    Closed config (FailsOnly C) where
  pure := .pure
  exhausted := .failure exhausted
  fault token f limited := .failure (fault ⟨token.line, f⟩ limited)
  returned := .returned
  get := .get
  onStore := .onStore
  update _ := .modify _
  print := .print broken
  readClock := .readClock _
  bind := .bind
  inScope := .inScope
  asCall := .asCall
  catchReturn := .catchReturn

namespace Closed

section

variable {config : Config} {P : ∀ {α : Type}, EvalM α → Prop} (h : Closed config P)

include h

theorem composed : Composed P where
  pure := h.pure
  fault token f ordinary := by
    refine h.fault token f fun overflow => ?_
    rw [overflow] at ordinary
    cases ordinary
  get := h.get
  bindTo _ _ := h.onStore _
  bind := h.bind

private theorem ofResult {α : Type} (token : Token) {r : Except RuntimeFault α}
    (other : r ≠ .error .stackOverflow) : P (EvalM.ofResult token r) :=
  h.composed.ofResult fun f failed => h.fault token f fun overflow =>
    absurd (failed.trans (congrArg Except.error overflow)) other

private theorem define (name : String) (v : Value) : P (EvalM.define name v) := h.update _

private theorem setField (o : Object) (name : String) (v : Value) : P (EvalM.setField o name v) :=
  h.update _

private theorem assign (D : Distances) (id : ExprId) (name : Token) (v : Value) :
    P (EvalM.assign D id name v) :=
  h.composed.assign fun _ => h.update _

theorem expectCallable (v : Value) (given : Nat) (paren : Token) :
    P (EvalM.expectCallable config.callLimit v given paren) :=
  h.composed.expectCallable (fun limited token => h.fault token _ fun _ => limited) v given paren

private theorem declareClass (name : Token) (superclass : Option Class)
    (methods : List FunctionDecl) :
    P (EvalM.declareClass name superclass methods) :=
  h.composed.declareClass (fun _ _ => h.onStore _) (h.onStore _) h.define name superclass methods

end

section

variable {w : Surroundings} {P : ∀ {α : Type}, EvalM α → Prop} (h : Closed w.config P)

include h

variable {bound : Nat} (ih : AllSteps w P bound)

include ih

private theorem expr_succ (e : Expr) : P (evalExpr w (bound + 1) e) := by
  unfold evalExpr
  cases e with
  | literal l => exact h.pure _
  | grouping inner => exact ih.expr inner
  | unary operator operand =>
    exact h.bind (ih.expr operand) fun v => h.ofResult _ (applyUnary_ne_overflow _ v)
  | binary operator left right =>
    exact h.bind (ih.expr left) fun a => h.bind (ih.expr right) fun b =>
      h.ofResult _ (applyBinary_ne_overflow _ a b)
  | logical operator left right =>
    refine h.bind (ih.expr left) fun a => ?_
    dsimp only
    generalize (if operator.kind = .orWord then a.truthy else !a.truthy) = decided
    cases decided with
    | true => exact h.pure a
    | false => exact ih.expr right
  | «variable» id name => exact h.composed.lookUp _ id name
  | assign id name value =>
    exact h.bind (ih.expr value) fun v => h.bind (h.assign _ id name v) fun _ => h.pure v
  | call callee paren args =>
    refine h.bind (ih.expr callee) fun f => h.bind (ih.exprs args) fun args => ?_
    exact h.bind (h.expectCallable f args.length paren) fun c => h.asCall (ih.apply c args)
  | get object name => exact h.bind (ih.expr object) fun v => h.composed.getProperty v name
  | set object name value =>
    refine h.bind (ih.expr object) fun v => h.bind (h.composed.expectObject v name) fun o => ?_
    exact h.bind (ih.expr value) fun u => h.bind (h.setField o _ u) fun _ => h.pure u
  | this id keyword => exact h.composed.lookUp _ id keyword
  | super id keyword method => exact h.composed.superMethod _ id keyword method

private theorem exprs_succ (es : List Expr) : P (evalExprs w (bound + 1) es) := by
  unfold evalExprs
  cases es with
  | nil => exact h.pure _
  | cons e es => exact h.bind (ih.expr e) fun v => h.bind (ih.exprs es) fun vs => h.pure _

private theorem apply_succ (c : Callable) (args : List Value) :
    P (applyCallable w (bound + 1) c args) := by
  unfold applyCallable
  cases c with
  | native f =>
    cases f
    exact h.readClock
  | function f => exact ih.invoke f args
  | ofClass k =>
    refine h.bind (h.onStore _) fun o => ?_
    cases k.method? initializerName with
    | none => exact h.pure _
    | some i => exact h.bind (h.onStore _) fun f => h.bind (ih.invoke f args) fun _ => h.pure _

private theorem invoke_succ (f : Closure) (args : List Value) :
    P (invokeClosure w (bound + 1) f args) := by
  unfold invokeClosure
  refine h.bind (h.onStore _) fun scope =>
    h.bind (h.inScope scope (h.catchReturn (ih.stmts _))) fun r => ?_
  split
  · exact h.bind h.composed.store fun _ => h.pure _
  · exact h.pure _

private theorem stmt_succ (s : Stmt) : P (execStmt w (bound + 1) s) := by
  unfold execStmt
  cases s with
  | expression e => exact h.bind (ih.expr e) fun _ => h.pure _
  | print e => exact h.bind (ih.expr e) fun v => h.print _
  | var name initializer => exact h.bind (ih.option initializer) fun v => h.define _ _
  | block body =>
    exact h.bind h.get fun m =>
      h.bind (h.onStore _) fun scope => h.inScope scope (ih.stmts body)
  | branch condition thenBranch elseBranch =>
    refine h.bind (ih.expr condition) fun v => ?_
    split
    · exact ih.stmt thenBranch
    · cases elseBranch with
      | none => exact h.pure _
      | some s => exact ih.stmt s
  | loop condition body => exact ih.loop condition body
  | function decl => exact h.bind h.get fun m => h.define _ _
  | ret keyword value => exact h.bind (ih.option value) fun v => h.returned v
  | classDecl name superclass methods =>
    cases superclass with
    | none => exact h.declareClass name none methods
    | some e =>
      refine h.bind (ih.expr e) fun v => ?_
      split
      · exact h.declareClass name _ methods
      · exact h.fault _ _ nofun

private theorem option_succ (e : Option Expr) : P (evalOption w (bound + 1) e) := by
  unfold evalOption
  cases e with
  | none => exact h.pure _
  | some e => exact ih.expr e

private theorem stmts_succ (ss : List Stmt) : P (execStmts w (bound + 1) ss) := by
  unfold execStmts
  cases ss with
  | nil => exact h.pure _
  | cons s ss => exact h.bind (ih.stmt s) fun _ => ih.stmts ss

private theorem loop_succ (c : Expr) (s : Stmt) : P (execLoop w (bound + 1) c s) := by
  unfold execLoop
  refine h.bind (ih.expr c) fun v => ?_
  split
  · exact h.bind (ih.stmt s) fun _ => ih.loop c s
  · exact h.pure _

omit ih in
theorem all (bound : Nat) : AllSteps w P bound := by
  induction bound with
  | zero =>
    constructor
    case expr => exact fun e => by unfold evalExpr; exact h.exhausted
    case exprs => exact fun es => by unfold evalExprs; exact h.exhausted
    case apply => exact fun c args => by unfold applyCallable; exact h.exhausted
    case invoke => exact fun f args => by unfold invokeClosure; exact h.exhausted
    case stmt => exact fun s => by unfold execStmt; exact h.exhausted
    case option => exact fun e => by unfold evalOption; exact h.exhausted
    case stmts => exact fun ss => by unfold execStmts; exact h.exhausted
    case loop => exact fun c s => by unfold execLoop; exact h.exhausted
  | succ bound ih =>
    exact ⟨h.expr_succ ih, h.exprs_succ ih, h.apply_succ ih, h.invoke_succ ih, h.stmt_succ ih,
      h.option_succ ih, h.stmts_succ ih, h.loop_succ ih⟩

end

end Closed

/-! A property of this kind: the scope and the count of active calls are restored. -/

/-- The scope and the count of active calls are behind an execution what they were before it. -/
def Restores {α : Type} (act : EvalM α) : Prop :=
  ∀ m, (act.outcome m).2.scope = m.scope ∧ (act.outcome m).2.depth = m.depth

open EvalM in
theorem Restores.closed (config : Config) : Closed config Restores where
  pure _ _ := ⟨rfl, rfl⟩
  exhausted _ := ⟨rfl, rfl⟩
  fault _ _ _ _ := ⟨rfl, rfl⟩
  returned _ _ := ⟨rfl, rfl⟩
  get _ := ⟨rfl, rfl⟩
  onStore _ _ := ⟨rfl, rfl⟩
  update _ _ := ⟨rfl, rfl⟩
  print _ _ := by cases config.sink <;> exact ⟨rfl, rfl⟩
  readClock _ := ⟨rfl, rfl⟩
  bind h h' m :=
    ⟨kept_bind Machine.scope (fun m => (h m).1) (fun a m => (h' a m).1) m,
      kept_bind Machine.depth (fun m => (h m).2) (fun a m => (h' a m).2) m⟩
  inScope scope h m := ⟨rfl, (h { m with scope }).2⟩
  asCall h m :=
    have inner := h { m with depth := m.depth + 1 }
    ⟨inner.1, congrArg (· - 1) inner.2⟩
  catchReturn h m := by
    rw [outcome_catchReturn_snd]
    exact h m

theorem Restores.all (w : Surroundings) (bound : Nat) : AllSteps w Restores bound :=
  (Restores.closed w.config).all bound

end LoxLang
