import LoxLang.Proofs.LegibleTrees
import LoxLang.Proofs.TreeProperties

/-!
The operators and the superclasses in trees.  Whatever tokens are parsed, an operator comes to stand
in a tree only in a node of its own kind, in all clauses of a `for` and on both sides of an
assignment as well, and a superclass is given by a name.
-/

set_option autoImplicit false
set_option relaxedAutoImplicit false

namespace LoxLang

/-- The operator of an expression, if it has one, is one of those that its kind of expression is
made for. -/
def Expr.OperatorFits : Expr → Prop
  | .unary operator _ => operator.kind ∈ unaryKinds
  | .binary operator _ _ => operator.kind ∈ binaryKinds
  | .logical operator _ _ => operator.kind ∈ logicalKinds
  | _ => True

/-- The superclass of a class declaration, if there is one, is given by a name. -/
def Stmt.SuperclassNamed : Stmt → Prop
  | .classDecl _ superclass _ => ∀ e ∈ superclass, ∃ id name, e = .variable id name
  | _ => True

abbrev Expr.Regular (e : Expr) : Prop := e.Everywhere Expr.OperatorFits

abbrev Stmt.Regular (s : Stmt) : Prop := s.Everywhere Expr.OperatorFits Stmt.SuperclassNamed

def TreeProperty.regular : TreeProperty := .everywhere Expr.OperatorFits Stmt.SuperclassNamed

namespace Grammar

private theorem regular_node {tier : Tier} {operator : Token} {left right : Expr}
    (kind : operator.kind ∈ tier.operators) (h : left.Regular) (h' : right.Regular) :
    (tier.node operator left right).Regular := by
  have both : ∀ e ∈ [left, right], e.Regular :=
    List.forall_mem_cons.mpr ⟨h, List.forall_mem_singleton.mpr h'⟩
  have listed {kinds : List Kind} (sub : ∀ k ∈ tier.operators, k ∈ kinds) :
      operator.kind ∈ kinds := sub _ kind
  cases tier <;> exact .intro (listed (by decide)) both

mutual

private theorem Expression.regular : ∀ {ts e rest}, Expression ts e rest → e.Regular
  | _, _, _, .assign _ _ value => .intro trivial (List.forall_mem_singleton.mpr value.regular)
  | _, _, _, .set object _ _ _ value =>
    .intro trivial
      (List.forall_mem_cons.mpr ⟨object.regular, List.forall_mem_singleton.mpr value.regular⟩)
  | _, _, _, .operation operation => operation.regular

private theorem Operation.regular : ∀ {tiers ts e rest}, Operation tiers ts e rest → e.Regular
  | _, _, _, _, .unary unary => unary.regular
  | _, _, _, _, .level first chain => chain.regular first.regular

private theorem Chain.regular : ∀ {tier tighter left ts e rest},
    Chain tier tighter left ts e rest → left.Regular → e.Regular
  | _, _, _, _, _, _, .done, h => h
  | _, _, _, _, _, _, .step operator right chain, h =>
    chain.regular (regular_node operator h right.regular)

private theorem Unary.regular : ∀ {ts e rest}, Unary ts e rest → e.Regular
  | _, _, _, .operator kind operand =>
    .intro (by simpa [Expr.OperatorFits, unaryKinds] using kind)
      (List.forall_mem_singleton.mpr operand.regular)
  | _, _, _, .call call => call.regular

private theorem Call.regular : ∀ {ts e rest}, Call ts e rest → e.Regular
  | _, _, _, .intro primary suffixes => suffixes.regular primary.regular

private theorem Suffixes.regular : ∀ {e ts e' rest}, Suffixes e ts e' rest → e.Regular → e'.Regular
  | _, _, _, _, .done, h => h
  | _, _, _, _, .call _ args _ _ suffixes, h =>
    suffixes.regular (.intro trivial (List.forall_mem_cons.mpr ⟨h, args.regular⟩))
  | _, _, _, _, .property _ _ suffixes, h =>
    suffixes.regular (.intro trivial (List.forall_mem_singleton.mpr h))

private theorem Arguments.regular : ∀ {ts args rest}, Arguments ts args rest → ∀ e ∈ args, e.Regular
  | _, _, _, .none => List.forall_mem_nil _
  | _, _, _, .some args => args.regular

private theorem ArgumentList.regular : ∀ {ts args rest},
    ArgumentList ts args rest → ∀ e ∈ args, e.Regular
  | _, _, _, .one e => List.forall_mem_singleton.mpr e.regular
  | _, _, _, .more e _ args => List.forall_mem_cons.mpr ⟨e.regular, args.regular⟩

private theorem Primary.regular : ∀ {ts e rest}, Primary ts e rest → e.Regular
  | _, _, _, .number _ | _, _, _, .string _ | _, _, _, .trueWord _ | _, _, _, .falseWord _
  | _, _, _, .nilWord _ | _, _, _, .this _ | _, _, _, .name _ | _, _, _, .super _ _ _ =>
    .intro trivial (List.forall_mem_nil _)
  | _, _, _, .grouping _ inner _ => .intro trivial (List.forall_mem_singleton.mpr inner.regular)

end

private theorem OptionalExpression.regular {ts e rest} :
    OptionalExpression ts e rest → ∀ e' ∈ e.toList, e'.Regular
  | .none => List.forall_mem_nil _
  | .some e => List.forall_mem_singleton.mpr e.regular

private theorem ExpressionStatement.regular {ts s rest} : ExpressionStatement ts s rest → s.Regular
  | .intro e _ =>
    .intro trivial (List.forall_mem_singleton.mpr e.regular) (List.forall_mem_nil _)

private theorem VarDeclaration.regular {ts s rest} : VarDeclaration ts s rest → s.Regular
  | .bare _ _ _ => .intro trivial (List.forall_mem_nil _) (List.forall_mem_nil _)
  | .initialized _ _ _ e _ =>
    .intro trivial (List.forall_mem_singleton.mpr e.regular) (List.forall_mem_nil _)

private theorem ForInitializer.regular {ts s rest} :
    ForInitializer ts s rest → ∀ s' ∈ s.toList, s'.Regular
  | .none _ => List.forall_mem_nil _
  | .var decl => List.forall_mem_singleton.mpr decl.regular
  | .expression statement => List.forall_mem_singleton.mpr statement.regular

private theorem regular_forTree {initializer : Option Stmt} {condition increment : Option Expr}
    {body : Stmt} (hi : ∀ s ∈ initializer.toList, s.Regular)
    (hc : ∀ e ∈ condition.toList, e.Regular) (he : ∀ e ∈ increment.toList, e.Regular)
    (hb : body.Regular) : (forTree initializer condition increment body).Regular := by
  have inner : (forBody increment body).Regular := by
    cases increment with
    | none => exact hb
    | some e =>
      have step : (Stmt.expression e).Regular := .intro trivial he (List.forall_mem_nil _)
      exact .intro trivial (List.forall_mem_nil _)
        (List.forall_mem_cons.mpr ⟨hb, List.forall_mem_singleton.mpr step⟩)
  have test : (condition.getD (.literal (.bool true))).Regular := by
    cases condition with
    | none => exact .intro trivial (List.forall_mem_nil _)
    | some e => exact hc e (List.mem_singleton_self e)
  have loop : (Stmt.loop (condition.getD (.literal (.bool true))) (forBody increment body)).Regular :=
    .intro trivial (List.forall_mem_singleton.mpr test) (List.forall_mem_singleton.mpr inner)
  cases initializer with
  | none => exact loop
  | some s =>
    have first : s.Regular := hi s (List.mem_singleton_self s)
    exact .intro trivial (List.forall_mem_nil _)
      (List.forall_mem_cons.mpr ⟨first, List.forall_mem_singleton.mpr loop⟩)

variable {rule : ElseRule}

mutual

private theorem Statement.regular : ∀
    {dangling ts s rest}, Statement rule dangling ts s rest → s.Regular
  | _, _, _, _, .expression statement => statement.regular
  | _, _, _, _, .print _ e _ =>
    .intro trivial (List.forall_mem_singleton.mpr e.regular) (List.forall_mem_nil _)
  | _, _, _, _, .ret _ value _ => .intro trivial value.regular (List.forall_mem_nil _)
  | _, _, _, _, .loop _ _ condition _ body =>
    .intro trivial (List.forall_mem_singleton.mpr condition.regular)
      (List.forall_mem_singleton.mpr body.regular)
  | _, _, _, _, .ifThen _ _ condition _ thenBranch =>
    .intro trivial (List.forall_mem_singleton.mpr condition.regular)
      (List.forall_mem_singleton.mpr thenBranch.regular)
  | _, _, _, _, .ifElse _ _ condition _ thenBranch _ _ elseBranch =>
    .intro trivial (List.forall_mem_singleton.mpr condition.regular) (List.forall_mem_cons.mpr
      ⟨thenBranch.regular, List.forall_mem_singleton.mpr elseBranch.regular⟩)
  | _, _, _, _, .forLoop _ _ initializer condition _ increment _ body =>
    regular_forTree initializer.regular condition.regular increment.regular body.regular
  | _, _, _, _, .block _ body _ => .intro trivial (List.forall_mem_nil _) body.regular

private theorem Declaration.regular : ∀ {ts s rest}, Declaration rule ts s rest → s.Regular
  | _, _, _, .classDecl _ _ _ methods _ => .intro nofun (List.forall_mem_nil _) methods.regular
  | _, _, _, .subclass _ _ _ _ _ methods _ => by
    refine .intro ?_ (List.forall_mem_singleton.mpr ?_) methods.regular
    · intro e clause
      exact ⟨_, _, (Option.mem_some_iff.mp clause).symm⟩
    · exact .intro trivial (List.forall_mem_nil _)
  | _, _, _, .function _ function => .intro trivial (List.forall_mem_nil _) function.regular
  | _, _, _, .var decl => decl.regular
  | _, _, _, .statement statement => statement.regular

private theorem Declarations.regular : ∀ {ts ss rest},
    Declarations rule ts ss rest → ∀ s ∈ ss, s.Regular
  | _, _, _, .nil => List.forall_mem_nil _
  | _, _, _, .cons first others => List.forall_mem_cons.mpr ⟨first.regular, others.regular⟩

private theorem Function.regular : ∀ {ts decl rest},
    Function rule ts decl rest → ∀ s ∈ decl.body, s.Regular
  | _, _, _, .intro _ _ _ _ _ _ body _ => body.regular

private theorem Methods.regular : ∀ {ts decls rest}, Methods rule ts decls rest →
    ∀ s ∈ decls.flatMap FunctionDecl.body, s.Regular
  | _, _, _, .nil => List.forall_mem_nil _
  | _, _, _, .cons first others => by
    intro s member
    rw [List.flatMap_cons, List.mem_append] at member
    exact member.elim (first.regular s) (others.regular s)

end

end Grammar

/-- All operators in a program that parses fit, and all superclasses are given by a name. -/
theorem parseProgram_regular {labels : Labels} {tokens : List Token} {lastLine : Nat}
    {program : List Stmt} (parsed : (parseProgram labels tokens lastLine).result = .ok program) :
    ∀ s ∈ program, s.Regular :=
  (parseProgram_sound parsed).1.regular

theorem parseExpression_regular {labels : Labels} {tokens : List Token} {lastLine : Nat}
    {e : Expr} (parsed : (parseExpression labels tokens lastLine).result = .ok e) : e.Regular :=
  (parseExpression_sound parsed).1.regular

end LoxLang
