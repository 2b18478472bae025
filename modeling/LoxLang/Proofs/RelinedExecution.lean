import LoxLang.Proofs.RelinedSteps

/-!
Trees executed on other lines: whatever the bound on nested steps, they do the same.
-/

set_option autoImplicit false
set_option relaxedAutoImplicit false

namespace LoxLang

structure RelinedSteps (line : Nat → Nat) (w w' : Surroundings) (bound : Nat) : Prop where
  expr : ∀ e, Relines line (Value.reline line) (evalExpr w bound e)
    (evalExpr w' bound (e.reline line))
  exprs : ∀ es, Relines line (List.map (Value.reline line)) (evalExprs w bound es)
    (evalExprs w' bound (Expr.relineAll line es))
  apply : ∀ c args, Relines line (Value.reline line) (applyCallable w bound c args)
    (applyCallable w' bound (c.reline line) (args.map (Value.reline line)))
  invoke : ∀ c args, Relines line (Value.reline line) (invokeClosure w bound c args)
    (invokeClosure w' bound (c.reline line) (args.map (Value.reline line)))
  stmt : ∀ s, Relines line id (execStmt w bound s) (execStmt w' bound (s.reline line))
  option : ∀ e, Relines line (Value.reline line) (evalOption w bound e)
    (evalOption w' bound (e.map (Expr.reline line)))
  stmts : ∀ ss, Relines line id (execStmts w bound ss)
    (execStmts w' bound (Stmt.relineAll line ss))
  loop : ∀ c s, Relines line id (execLoop w bound c s)
    (execLoop w' bound (c.reline line) (s.reline line))

structure Surroundings.Same (w w' : Surroundings) : Prop where
  config : w'.config = w.config
  distances : ∀ id : ExprId, w'.distances[id]? = w.distances[id]?

private theorem Expr.variableName?_reline (line : Nat → Nat) (e : Expr) :
    (e.reline line).variableName? = e.variableName?.map (Token.reline line) := by
  cases e <;> rfl

namespace RelinedSteps

open EvalM Relines

variable {line : Nat → Nat} {w w' : Surroundings} {bound : Nat}

private theorem zero : RelinedSteps line w w' 0 := by
  constructor
  all_goals
    intros
    exact throw _

private theorem expr_succ (h : RelinedSteps line w w' bound) (around : w.Same w') (e : Expr) :
    Relines line (Value.reline line) (evalExpr w (bound + 1) e)
      (evalExpr w' (bound + 1) (e.reline line)) := by
  unfold evalExpr
  rw [around.config]
  cases e with
  | literal l => exact .pure l.value_reline.symm
  | grouping inner => exact h.expr inner
  | unary operator operand =>
    refine (h.expr operand).bind fun v => ?_
    rw [Token.reline_kind, applyUnary_alike _ v.alike_reline]
    exact ofResult operator fun _ => applyUnary_constant
  | binary operator left right =>
    refine (h.expr left).bind fun a => (h.expr right).bind fun b => ?_
    rw [Token.reline_kind, applyBinary_alike _ a.alike_reline b.alike_reline (a.same_reline b)]
    exact ofResult operator fun _ => applyBinary_constant
  | logical operator left right =>
    refine (h.expr left).bind fun a => ?_
    rw [a.alike_reline.truthy_eq, Token.reline_kind]
    generalize (if operator.kind = .orWord then a.truthy else !a.truthy) = decided
    cases decided with
    | true => exact .pure rfl
    | false => exact h.expr right
  | «variable» n name => exact lookUp around.distances n name
  | assign n name value =>
    refine (h.expr value).bind fun v => ?_
    exact (assign around.distances n name v).bind fun _ => .pure rfl
  | call callee paren args =>
    refine (h.expr callee).bind fun f => (h.exprs args).bind fun vs => ?_
    rw [List.length_map]
    exact (Relines.expectCallable _ f _ paren).bind fun c => asCall (h.apply c vs)
  | get object name => exact (h.expr object).bind fun v => getProperty v name
  | set object name value =>
    refine (h.expr object).bind fun v => (Relines.expectObject v name).bind fun o => ?_
    refine (h.expr value).bind fun u => ?_
    exact (Relines.setField o name.lexeme u).bind fun _ => .pure rfl
  | this n keyword => exact lookUp around.distances n keyword
  | super n keyword method => exact superMethod around.distances n keyword method

private theorem exprs_succ (h : RelinedSteps line w w' bound) (es : List Expr) :
    Relines line (List.map (Value.reline line)) (evalExprs w (bound + 1) es)
      (evalExprs w' (bound + 1) (Expr.relineAll line es)) := by
  unfold evalExprs
  cases es with
  | nil => exact .pure rfl
  | cons e es => exact (h.expr e).bind fun v => (h.exprs es).bind fun vs => .pure rfl

private theorem apply_succ (h : RelinedSteps line w w' bound) (around : w.Same w') (c : Callable)
    (args : List Value) :
    Relines line (Value.reline line) (applyCallable w (bound + 1) c args)
      (applyCallable w' (bound + 1) (c.reline line) (args.map (Value.reline line))) := by
  unfold applyCallable
  rw [around.config]
  cases c with
  | native f =>
    cases f
    exact readClock _
  | function c => exact h.invoke c args
  | ofClass k =>
    have made : Relines line (Object.reline line) (onStore (·.newObject k))
        (onStore (·.newObject (k.reline line))) := onStore fun _ _ hm => hm.newObject k
    refine made.bind fun o => ?_
    rw [k.method?_reline]
    cases k.method? initializerName with
    | none => exact .pure rfl
    | some initializer =>
      exact (bindTo initializer o).bind fun f => (h.invoke f args).bind fun _ => .pure rfl

private theorem invoke_succ (h : RelinedSteps line w w' bound) (c : Closure) (args : List Value) :
    Relines line (Value.reline line) (invokeClosure w (bound + 1) c args)
      (invokeClosure w' (bound + 1) (c.reline line) (args.map (Value.reline line))) := by
  obtain ⟨decl, closed, isInitializer⟩ := c
  have names : (decl.reline line).params.map Token.lexeme = decl.params.map Token.lexeme := by
    rw [decl.reline_params, List.map_map]
    rfl
  unfold invokeClosure
  dsimp only [Closure.reline, Closure.mapDecl]
  rw [names, decl.reline_body]
  refine (newScope (BindingsRelined.empty.bindAll _ args) (some closed)).bind fun scope => ?_
  refine (inScope scope (catchReturn (h.stmts decl.body))).bind fun result => ?_
  cases isInitializer with
  | true =>
    refine store_bind fun m m' hm => .pure ?_
    rw [hm.getAt?]
    cases m.getAt? closed 0 "this" <;> rfl
  | false => cases result <;> exact .pure rfl

private theorem option_succ (h : RelinedSteps line w w' bound) (e : Option Expr) :
    Relines line (Value.reline line) (evalOption w (bound + 1) e)
      (evalOption w' (bound + 1) (e.map (Expr.reline line))) := by
  unfold evalOption
  cases e with
  | none => exact .pure rfl
  | some e => exact h.expr e

private theorem stmts_succ (h : RelinedSteps line w w' bound) (ss : List Stmt) :
    Relines line id (execStmts w (bound + 1) ss)
      (execStmts w' (bound + 1) (Stmt.relineAll line ss)) := by
  unfold execStmts
  cases ss with
  | nil => exact .pure rfl
  | cons s ss => exact (h.stmt s).bind fun _ => h.stmts ss

private theorem loop_succ (h : RelinedSteps line w w' bound) (c : Expr) (s : Stmt) :
    Relines line id (execLoop w (bound + 1) c s)
      (execLoop w' (bound + 1) (c.reline line) (s.reline line)) := by
  unfold execLoop
  refine (h.expr c).bind fun v => ?_
  rw [v.alike_reline.truthy_eq]
  split
  · exact (h.stmt s).bind fun _ => h.loop c s
  · exact .pure rfl

private theorem closures_reline (scope : Scope) (methods : List FunctionDecl) :
    ((FunctionDecl.relineAll line methods).map fun decl =>
        Closure.mk decl scope (decl.name.lexeme = initializerName)) =
      (methods.map fun decl => Closure.mk decl scope (decl.name.lexeme = initializerName)).map
        (Closure.reline line) := by
  induction methods with
  | nil => rfl
  | cons decl methods ih =>
    have name : (decl.reline line).name.lexeme = decl.name.lexeme := by
      rw [decl.reline_name, Token.reline_lexeme]
    rw [FunctionDecl.relineAll, List.map_cons, ih, name]
    rfl

private theorem declareClass (name : Token) (superclass : Option Class)
    (methods : List FunctionDecl) :
    Relines line id (EvalM.declareClass name superclass methods)
      (EvalM.declareClass (name.reline line) (superclass.map (Class.reline line))
        (FunctionDecl.relineAll line methods)) := by
  have defined : ∀ scope : Scope, Relines line id
      (do
        let id ← onStore (·.newClass)
        let closures := methods.map fun decl =>
          Closure.mk decl scope (decl.name.lexeme = initializerName)
        EvalM.define name.lexeme
          (.callable (.ofClass (.below ⟨id, name.lexeme, closures⟩ superclass))))
      (do
        let id ← onStore (·.newClass)
        let closures := (FunctionDecl.relineAll line methods).map fun decl =>
          Closure.mk decl scope (decl.name.lexeme = initializerName)
        EvalM.define name.lexeme (.callable (.ofClass
          (.below ⟨id, name.lexeme, closures⟩ (superclass.map (Class.reline line)))))) := by
    intro scope
    have numbered : Relines line id (onStore (·.newClass)) (onStore (·.newClass)) :=
      onStore fun _ _ hm => hm.newClass
    refine numbered.bind fun number => ?_
    rw [closures_reline]
    let own : ClassBody := ⟨number, name.lexeme, methods.map fun decl =>
      Closure.mk decl scope (decl.name.lexeme = initializerName)⟩
    have below : Value.reline line (.callable (.ofClass (.below own superclass))) =
        .callable (.ofClass (.below (own.reline line) (superclass.map (Class.reline line)))) :=
      congrArg (fun c => Value.callable (.ofClass c)) (Class.below_reline own superclass)
    have stored : Relines line id _ _ :=
      define name.lexeme (.callable (.ofClass (.below own superclass)))
    rw [below] at stored
    exact stored
  refine get_bind fun m m' hm => ?_
  rw [hm.scope]
  cases superclass with
  | none => exact defined m.scope
  | some c =>
    have bound : BindingsRelined line _ _ :=
      BindingsRelined.empty.insert "super" (.callable (.ofClass c))
    exact (newScope bound (some m.scope)).bind fun scope => defined scope

private theorem stmt_succ (h : RelinedSteps line w w' bound) (around : w.Same w') (s : Stmt) :
    Relines line id (execStmt w (bound + 1) s) (execStmt w' (bound + 1) (s.reline line)) := by
  unfold execStmt
  cases s with
  | expression e => exact (h.expr e).bind fun _ => .pure rfl
  | print e =>
    refine (h.expr e).bind fun v => ?_
    rw [v.text_reline, around.config]
    exact Relines.print _ _
  | var name initializer => exact (h.option initializer).bind fun v => define name.lexeme v
  | block body =>
    refine get_bind fun m m' hm => ?_
    rw [hm.scope]
    exact (newScope .empty (some m.scope)).bind fun scope => inScope scope (h.stmts body)
  | branch condition thenBranch elseBranch =>
    refine (h.expr condition).bind fun v => ?_
    rw [v.alike_reline.truthy_eq]
    split
    · exact h.stmt thenBranch
    · cases elseBranch with
      | none => exact .pure rfl
      | some other => exact h.stmt other
  | loop condition body => exact h.loop condition body
  | function decl =>
    refine get_bind fun m m' hm => ?_
    have name : (decl.reline line).name.lexeme = decl.name.lexeme := by
      rw [decl.reline_name, Token.reline_lexeme]
    dsimp only [Stmt.reline]
    rw [hm.scope, name]
    exact define decl.name.lexeme (.callable (.function ⟨decl, m.scope, false⟩))
  | ret keyword value => exact (h.option value).bind fun v => throw (.returned v)
  | classDecl name superclass methods =>
    cases superclass with
    | none => exact declareClass name none methods
    | some e =>
      refine (h.expr e).bind fun v => ?_
      have token : ((e.reline line).variableName?.getD (name.reline line)) =
          (e.variableName?.getD name).reline line := by
        rw [e.variableName?_reline]
        cases e.variableName? <;> rfl
      rw [token]
      cases v with
      | callable c =>
        cases c with
        | ofClass c => exact declareClass name (some c) methods
        | _ => exact fault _ _
      | _ => exact fault _ _

/-- On other lines all trees do the same, whatever the bound. -/
theorem all (around : w.Same w') (bound : Nat) : RelinedSteps line w w' bound := by
  induction bound with
  | zero => exact zero
  | succ bound ih =>
    exact {
      expr := ih.expr_succ around
      exprs := ih.exprs_succ
      apply := ih.apply_succ around
      invoke := ih.invoke_succ
      stmt := ih.stmt_succ around
      option := ih.option_succ
      stmts := ih.stmts_succ
      loop := ih.loop_succ }

end RelinedSteps

end LoxLang
