import LoxLang.Machine
import LoxLang.Operator

/-!
Executing trees.  Every function takes a bound on the depth of nested steps; an execution that
reaches it is cut short as `exhausted`, and any other end does not depend on the bound.
-/

set_option autoImplicit false
set_option relaxedAutoImplicit false

namespace LoxLang

/-- What an execution consults: the world outside and the distances of local names. -/
structure Surroundings where
  config : Config
  distances : Distances

open EvalM

mutual

/-- The value of an expression. -/
def evalExpr (w : Surroundings) : Nat → Expr → EvalM Value
  | 0, _ => throw (.failure .exhausted)
  | bound + 1, e =>
    match e with
    | .literal l => pure l.value
    | .grouping inner => evalExpr w bound inner
    | .unary operator operand => do
      let v ← evalExpr w bound operand
      ofResult operator (applyUnary operator.kind v)
    | .binary operator left right => do
      let a ← evalExpr w bound left
      let b ← evalExpr w bound right
      ofResult operator (applyBinary operator.kind a b)
    | .logical operator left right => do
      let a ← evalExpr w bound left
      let decided := if operator.kind = .orWord then a.truthy else !a.truthy
      if decided then pure a else evalExpr w bound right
    | .variable id name => lookUp w.distances id name
    | .assign id name value => do
      let v ← evalExpr w bound value
      assign w.distances id name v
      pure v
    | .call callee paren arguments => do
      let f ← evalExpr w bound callee
      let args ← evalExprs w bound arguments
      let c ← expectCallable w.config.callLimit f args.length paren
      asCall (applyCallable w bound c args)
    | .get object name => do
      let v ← evalExpr w bound object
      getProperty v name
    | .set object name value => do
      let o ← expectObject (← evalExpr w bound object) name
      let v ← evalExpr w bound value
      setField o name.lexeme v
      pure v
    | .this id keyword => lookUp w.distances id keyword
    | .super id keyword method => superMethod w.distances id keyword method

def evalExprs (w : Surroundings) : Nat → List Expr → EvalM (List Value)
  | 0, _ => throw (.failure .exhausted)
  | _ + 1, [] => pure []
  | bound + 1, e :: es => do
    let v ← evalExpr w bound e
    let vs ← evalExprs w bound es
    pure (v :: vs)

/-- Calls a callable.  Calling a class makes an object and sets it up. -/
def applyCallable (w : Surroundings) : Nat → Callable → List Value → EvalM Value
  | 0, _, _ => throw (.failure .exhausted)
  | bound + 1, c, args =>
    match c with
    | .native .clock => readClock w.config.clock
    | .function f => invokeClosure w bound f args
    | .ofClass k => do
      let o ← onStore (·.newObject k)
      match k.method? initializerName with
      | none => pure (.object o)
      | some initializer =>
        let _ ← invokeClosure w bound (← onStore (·.bind initializer o)) args
        pure (.object o)

/-- Runs the body of a function in a new frame that holds its arguments.  An initializer gives the
object that it is bound to, whatever it returns. -/
def invokeClosure (w : Surroundings) : Nat → Closure → List Value → EvalM Value
  | 0, _, _ => throw (.failure .exhausted)
  | bound + 1, f, args => do
    let params := (f.decl.params.map Token.lexeme).zip args
    let bindings := params.foldl (fun b (name, v) => b.insert name v) (∅ : Bindings)
    let scope ← onStore (·.newScope bindings (some f.scope))
    let result ← inScope scope (catchReturn (execStmts w bound f.decl.body))
    if f.isInitializer then
      pure (((← store).getAt? f.scope 0 "this").getD .nil)
    else pure (result.getD .nil)

/-- Executes a statement. -/
def execStmt (w : Surroundings) : Nat → Stmt → EvalM Unit
  | 0, _ => throw (.failure .exhausted)
  | bound + 1, s =>
    match s with
    | .expression e => do
      let _ ← evalExpr w bound e
    | .print e => do
      let v ← evalExpr w bound e
      print w.config.sink v.text
    | .var name initializer => do
      let v ← evalOption w bound initializer
      define name.lexeme v
    | .block body => do
      let present := (← get).scope
      let scope ← onStore (·.newScope ∅ (some present))
      inScope scope (execStmts w bound body)
    | .branch condition thenBranch elseBranch => do
      let v ← evalExpr w bound condition
      if v.truthy then execStmt w bound thenBranch
      else
        match elseBranch with
        | some s => execStmt w bound s
        | none => pure ()
    | .loop condition body => execLoop w bound condition body
    | .function decl => do
      let present := (← get).scope
      define decl.name.lexeme (.callable (.function ⟨decl, present, false⟩))
    | .ret _ value => do
      let v ← evalOption w bound value
      throw (.returned v)
    | .classDecl name superclass methods =>
      match superclass with
      | none => declareClass name none methods
      | some e => do
        match ← evalExpr w bound e with
        | .callable (.ofClass c) => declareClass name (some c) methods
        | _ => fault (e.variableName?.getD name) .superclassNotClass

def evalOption (w : Surroundings) : Nat → Option Expr → EvalM Value
  | 0, _ => throw (.failure .exhausted)
  | _ + 1, none => pure .nil
  | bound + 1, some e => evalExpr w bound e

def execStmts (w : Surroundings) : Nat → List Stmt → EvalM Unit
  | 0, _ => throw (.failure .exhausted)
  | _ + 1, [] => pure ()
  | bound + 1, s :: ss => do
    execStmt w bound s
    execStmts w bound ss

def execLoop (w : Surroundings) : Nat → Expr → Stmt → EvalM Unit
  | 0, _, _ => throw (.failure .exhausted)
  | bound + 1, condition, body => do
    let v ← evalExpr w bound condition
    if v.truthy then
      execStmt w bound body
      execLoop w bound condition body
    else pure ()

end

end LoxLang
