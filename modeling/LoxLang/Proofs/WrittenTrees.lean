import LoxLang.Proofs.StatementComplete
import LoxLang.Proofs.StatementSound

/-!
Trees written back as tokens.  The tokens that a tree keeps are used again; the marks that it does
not keep, and its literals, are spelled anew.  Parentheses are written for groupings and for nothing
else that is an operand, braces for blocks and for nothing else that is a statement, and each loop
is a `while`.  Whatever the grammar derives, it derives once more from the tokens written for the
tree: the operands of a tree that was parsed bind as tightly as they have to, and what stands before
an `else` ends with no open `if`, also where a `for` was read.
-/

set_option autoImplicit false
set_option relaxedAutoImplicit false

namespace LoxLang

def Token.literal? (t : Token) : Option Literal :=
  match t.kind with
  | .number => some (.number t.numberValue)
  | .string => some (.string t.stringValue)
  | .trueWord => some (.bool true)
  | .falseWord => some (.bool false)
  | .nilWord => some .nil
  | _ => none

/-- How the tokens that a tree does not keep are written: a token for each kind of mark or keyword,
and one for each constant, which denotes it if any token does. -/
structure Spelling where
  mark : Kind → Token
  literal : Literal → Token
  kind_mark : ∀ k, (mark k).kind = k
  literal?_literal : ∀ (t : Token) (l : Literal), t.literal? = some l →
    (literal l).literal? = some l

instance : Nonempty Spelling := by
  have choice : ∀ l : Literal, ∃ t : Token,
      ∀ t' : Token, t'.literal? = some l → t.literal? = some l := by
    intro l
    by_cases h : ∃ t : Token, t.literal? = some l
    · obtain ⟨t, denotes⟩ := h
      exact ⟨t, fun _ _ => denotes⟩
    · exact ⟨⟨.nilWord, "nil", 1⟩, fun t' denotes => absurd ⟨t', denotes⟩ h⟩
  choose literal denotes using choice
  exact ⟨⟨fun k => ⟨k, "", 1⟩, literal, fun _ => rfl, fun t l => denotes l t⟩⟩

namespace Spelling

mutual

def expr (w : Spelling) : Expr → List Token
  | .literal l => [w.literal l]
  | .grouping inner => w.mark .leftParen :: (w.expr inner ++ [w.mark .rightParen])
  | .unary operator operand => operator :: w.expr operand
  | .binary operator left right | .logical operator left right =>
    w.expr left ++ operator :: w.expr right
  | .variable _ name => [name]
  | .assign _ name value => name :: w.mark .equal :: w.expr value
  | .call callee paren args => w.expr callee ++ w.mark .leftParen :: (w.exprs args ++ [paren])
  | .get object name => w.expr object ++ [w.mark .dot, name]
  | .set object name value =>
    w.expr object ++ w.mark .dot :: name :: w.mark .equal :: w.expr value
  | .this _ keyword => [keyword]
  | .super _ keyword method => [keyword, w.mark .dot, method]

def exprs (w : Spelling) : List Expr → List Token
  | [] => []
  | [e] => w.expr e
  | e :: e' :: es => w.expr e ++ w.mark .comma :: w.exprs (e' :: es)

end

def expr? (w : Spelling) : Option Expr → List Token
  | none => []
  | some e => w.expr e

mutual

def stmt (w : Spelling) : Stmt → List Token
  | .expression e => w.expr e ++ [w.mark .semicolon]
  | .print e => w.mark .printWord :: (w.expr e ++ [w.mark .semicolon])
  | .var name none => [w.mark .varWord, name, w.mark .semicolon]
  | .var name (some e) =>
    w.mark .varWord :: name :: w.mark .equal :: (w.expr e ++ [w.mark .semicolon])
  | .block body => w.mark .leftBrace :: (w.stmts body ++ [w.mark .rightBrace])
  | .branch condition thenBranch elseBranch =>
    w.mark .ifWord :: w.mark .leftParen ::
      (w.expr condition ++ w.mark .rightParen :: (w.stmt thenBranch ++ w.otherwise elseBranch))
  | .loop condition body =>
    w.mark .whileWord :: w.mark .leftParen ::
      (w.expr condition ++ w.mark .rightParen :: w.stmt body)
  | .function decl => w.mark .funWord :: w.function decl
  | .ret keyword value => keyword :: (w.expr? value ++ [w.mark .semicolon])
  | .classDecl name none methods =>
    w.mark .classWord :: name :: w.mark .leftBrace :: (w.functions methods ++ [w.mark .rightBrace])
  | .classDecl name (some superclass) methods =>
    w.mark .classWord :: name :: w.mark .less :: (w.expr superclass ++ w.mark .leftBrace ::
      (w.functions methods ++ [w.mark .rightBrace]))

def otherwise (w : Spelling) : Option Stmt → List Token
  | none => []
  | some s => w.mark .elseWord :: w.stmt s

def stmts (w : Spelling) : List Stmt → List Token
  | [] => []
  | s :: ss => w.stmt s ++ w.stmts ss

def function (w : Spelling) : FunctionDecl → List Token
  | .mk _ name params body =>
    name :: w.mark .leftParen :: (params.intersperse (w.mark .comma) ++ w.mark .rightParen ::
      w.mark .leftBrace :: (w.stmts body ++ [w.mark .rightBrace]))

def functions (w : Spelling) : List FunctionDecl → List Token
  | [] => []
  | decl :: decls => w.function decl ++ w.functions decls

end

def unparse (w : Spelling) (program : List Stmt) : List Token := w.stmts program

private theorem expr_node (w : Spelling) (tier : Grammar.Tier) (operator : Token)
    (left right : Expr) :
    w.expr (tier.node operator left right) = w.expr left ++ operator :: w.expr right := by
  cases tier <;> simp only [Grammar.Tier.node, expr]

end Spelling

namespace Grammar

private theorem Primary.literal {t : Token} {l : Literal} (denotes : t.literal? = some l)
    (ts : List Token) : Primary (t :: ts) (.literal l) ts := by
  unfold Token.literal? at denotes
  split at denotes
  case h_1 kind =>
    obtain rfl := Option.some.inj denotes
    exact .number kind
  case h_2 kind =>
    obtain rfl := Option.some.inj denotes
    exact .string kind
  case h_3 kind =>
    obtain rfl := Option.some.inj denotes
    exact .trueWord kind
  case h_4 kind =>
    obtain rfl := Option.some.inj denotes
    exact .falseWord kind
  case h_5 kind =>
    obtain rfl := Option.some.inj denotes
    exact .nilWord kind
  case h_6 => cases denotes

section

variable (w : Spelling)

private theorem Primary.spelled {t : Token} {l : Literal} (denotes : t.literal? = some l)
    (rest : List Token) : Primary (w.expr (.literal l) ++ rest) (.literal l) rest := by
  rw [Spelling.expr]
  exact .literal (w.literal?_literal t l denotes) rest

mutual

private theorem Expression.rewritten : ∀ {ts e rest}, Expression ts e rest →
    ∀ rest', Expression (w.expr e ++ rest') e rest'
  | _, _, _, .assign name _ value, rest' => by
    rw [Spelling.expr]
    exact .assign name (w.kind_mark _) (value.rewritten rest')
  | _, _, _, .set object _ name _ value, rest' => by
    simp only [Spelling.expr, List.append_assoc, List.cons_append]
    exact .set (object.rewritten _) (w.kind_mark _) name (w.kind_mark _) (value.rewritten rest')
  | _, _, _, .operation operation, rest' => .operation (operation.rewritten rest')

private theorem Operation.rewritten : ∀ {tiers ts e rest}, Operation tiers ts e rest →
    ∀ rest', Operation tiers (w.expr e ++ rest') e rest'
  | _, _, _, _, .unary unary, rest' => .unary (unary.rewritten rest')
  | _, _, _, _, .level first chain, rest' => by
    obtain ⟨us, written, chain'⟩ := chain.rewritten
    rw [written, List.append_assoc]
    exact .level (first.rewritten _) (chain' rest')

private theorem Chain.rewritten : ∀
    {tier tighter left ts e rest}, Chain tier tighter left ts e rest →
    ∃ us, w.expr e = w.expr left ++ us ∧ ∀ rest', Chain tier tighter left (us ++ rest') e rest'
  | _, _, _, _, _, _, .done => ⟨[], (List.append_nil _).symm, fun _ => .done⟩
  | _, _, _, _, _, _, @Chain.step _ _ _ right _ operator _ _ _ kind operand chain => by
    obtain ⟨us, written, chain'⟩ := chain.rewritten
    refine ⟨operator :: (w.expr right ++ us), ?_, fun rest' => ?_⟩
    · rw [written, w.expr_node, List.append_assoc, List.cons_append]
    · rw [List.cons_append, List.append_assoc]
      exact .step kind (operand.rewritten _) (chain' rest')

private theorem Unary.rewritten : ∀ {ts e rest}, Unary ts e rest →
    ∀ rest', Unary (w.expr e ++ rest') e rest'
  | _, _, _, .operator kind operand, rest' => by
    rw [Spelling.expr]
    exact .operator kind (operand.rewritten rest')
  | _, _, _, .call call, rest' => .call (call.rewritten rest')

private theorem Call.rewritten : ∀ {ts e rest}, Call ts e rest → ∀ rest', Call
    (w.expr e ++ rest') e rest'
  | _, _, _, .intro primary suffixes, rest' => by
    obtain ⟨us, written, suffixes'⟩ := suffixes.rewritten
    rw [written, List.append_assoc]
    exact .intro (primary.rewritten _) (suffixes' rest')

private theorem Suffixes.rewritten : ∀ {e ts e' rest}, Suffixes e ts e' rest →
    ∃ us, w.expr e' = w.expr e ++ us ∧ ∀ rest', Suffixes e (us ++ rest') e' rest'
  | _, _, _, _, .done => ⟨[], (List.append_nil _).symm, fun _ => .done⟩
  | _, _, _, _, @Suffixes.call _ _ _ right _ _ _ args _ arguments kind limit suffixes => by
    obtain ⟨us, written, suffixes'⟩ := suffixes.rewritten
    refine ⟨w.mark .leftParen :: (w.exprs args ++ right :: us), ?_, fun rest' => ?_⟩
    · rw [written, Spelling.expr]
      simp only [List.append_assoc, List.cons_append, List.nil_append]
    · simp only [List.append_assoc, List.cons_append]
      exact .call (w.kind_mark _) (arguments.rewritten _) kind limit (suffixes' rest')
  | _, _, _, _, @Suffixes.property _ _ _ name _ _ _ kind suffixes => by
    obtain ⟨us, written, suffixes'⟩ := suffixes.rewritten
    refine ⟨w.mark .dot :: name :: us, ?_, fun rest' => .property (w.kind_mark _) kind
      (suffixes' rest')⟩
    rw [written, Spelling.expr, List.append_assoc]
    rfl

private theorem Arguments.rewritten : ∀ {ts args rest}, Arguments ts args rest →
    ∀ rest', Arguments (w.exprs args ++ rest') args rest'
  | _, _, _, .none, _ => by
    rw [Spelling.exprs]
    exact .none
  | _, _, _, .some args, rest' => .some (args.rewritten rest')

private theorem ArgumentList.rewritten : ∀ {ts args rest}, ArgumentList ts args rest →
    ∀ rest', ArgumentList (w.exprs args ++ rest') args rest'
  | _, _, _, .one e, rest' => by
    rw [Spelling.exprs]
    exact .one (e.rewritten rest')
  | _, _, _, @ArgumentList.more _ _ _ _ _ args e _ others, rest' => by
    have again := others.rewritten rest'
    cases args with
    | nil => cases others
    | cons e' es =>
      rw [Spelling.exprs, List.append_assoc]
      exact .more (e.rewritten _) (w.kind_mark _) again

private theorem Primary.rewritten : ∀ {ts e rest}, Primary ts e rest →
    ∀ rest', Primary (w.expr e ++ rest') e rest'
  | t :: _, _, _, .number kind, rest' => .spelled w (t := t) (by rw [Token.literal?, kind]) rest'
  | t :: _, _, _, .string kind, rest' => .spelled w (t := t) (by rw [Token.literal?, kind]) rest'
  | t :: _, _, _, .trueWord kind, rest' => .spelled w (t := t) (by rw [Token.literal?, kind]) rest'
  | t :: _, _, _, .falseWord kind, rest' => .spelled w (t := t) (by rw [Token.literal?, kind]) rest'
  | t :: _, _, _, .nilWord kind, rest' => .spelled w (t := t) (by rw [Token.literal?, kind]) rest'
  | _, _, _, .this kind, _ => by
    rw [Spelling.expr]
    exact .this kind
  | _, _, _, .name kind, _ => by
    rw [Spelling.expr]
    exact .name kind
  | _, _, _, .grouping _ inner _, rest' => by
    simp only [Spelling.expr, List.append_assoc, List.cons_append, List.nil_append]
    exact .grouping (w.kind_mark _) (inner.rewritten _) (w.kind_mark _)
  | _, _, _, .super keyword _ method, _ => by
    rw [Spelling.expr]
    exact .super keyword (w.kind_mark _) method

end

private theorem OptionalExpression.rewritten {ts e rest} (h : OptionalExpression ts e rest)
    (rest' : List Token) : OptionalExpression (w.expr? e ++ rest') e rest' := by
  cases h with
  | none => exact .none
  | some e => exact .some (e.rewritten w rest')

private theorem OptionalExpression.rewritten_some {ts value rest}
    (h : OptionalExpression ts value rest) :
    ∀ e ∈ value, ∀ rest', Expression (w.expr e ++ rest') e rest' := by
  rintro e ⟨⟩ rest'
  obtain - | e := h
  exact e.rewritten w rest'

private theorem ExpressionStatement.rewritten {ts s rest} (h : ExpressionStatement ts s rest)
    (rest' : List Token) : ExpressionStatement (w.stmt s ++ rest') s rest' := by
  obtain ⟨e, _⟩ := h
  simp only [Spelling.stmt, List.append_assoc, List.cons_append, List.nil_append]
  exact .intro (e.rewritten w _) (w.kind_mark _)

private theorem VarDeclaration.rewritten {ts s rest} (h : VarDeclaration ts s rest)
    (rest' : List Token) : VarDeclaration (w.stmt s ++ rest') s rest' := by
  cases h with
  | bare _ name _ =>
    rw [Spelling.stmt]
    exact .bare (w.kind_mark _) name (w.kind_mark _)
  | initialized _ name _ e _ =>
    simp only [Spelling.stmt, List.append_assoc, List.cons_append, List.nil_append]
    exact .initialized (w.kind_mark _) name (w.kind_mark _) (e.rewritten w _) (w.kind_mark _)

private theorem ForInitializer.rewritten {rule ts initializer rest}
    (h : ForInitializer ts initializer rest) :
    ∀ s ∈ initializer, ∀ rest', Declaration rule (w.stmt s ++ rest') s rest' := by
  cases h with
  | none _ => exact fun s absent => by cases absent
  | var decl =>
    rintro s ⟨⟩ rest'
    exact .var (decl.rewritten w rest')
  | expression statement =>
    rintro s ⟨⟩ rest'
    exact .statement (.expression (statement.rewritten w rest'))

private theorem ParameterList.rewritten : ∀ {ts params rest}, ParameterList ts params rest →
    ∀ rest', ParameterList (params.intersperse (w.mark .comma) ++ rest') params rest'
  | _, _, _, .one name, _ => .one name
  | _, _, _, @ParameterList.more _ _ _ _ params name _ others, rest' => by
    have again := others.rewritten rest'
    cases params with
    | nil => cases others
    | cons _ _ => exact .more name (w.kind_mark _) again

private theorem Parameters.rewritten {ts params rest} (h : Parameters ts params rest)
    (rest' : List Token) :
    Parameters (params.intersperse (w.mark .comma) ++ rest') params rest' := by
  cases h with
  | none => exact .none
  | some params => exact .some (params.rewritten w rest')

private theorem OptionalExpression.condition {ts condition rest}
    (h : OptionalExpression ts condition rest) (rest' : List Token) :
    Expression (w.expr (condition.getD (.literal (.bool true))) ++ rest')
      (condition.getD (.literal (.bool true))) rest' := by
  cases h with
  | none =>
    have spelled : Primary _ (.literal (.bool true)) rest' :=
      .spelled w (t := ⟨.trueWord, "true", 1⟩) rfl rest'
    exact .operation (Call.operation (.intro spelled .done) tiers)
  | some e => exact e.rewritten w rest'

def Rewritten (w : Spelling) (rule : ElseRule) (dangling : Bool) (s : Stmt) : Prop :=
  ∃ dangling', (dangling' = true → dangling = true) ∧
    ∀ rest, Statement rule dangling' (w.stmt s ++ rest) s rest

namespace Rewritten

variable {w : Spelling} {rule : ElseRule} {dangling : Bool} {s : Stmt}

private theorem closed (h : ∀ rest, Statement rule false (w.stmt s ++ rest) s rest) :
    Rewritten w rule dangling s :=
  ⟨false, fun impossible => (by cases impossible), h⟩

private theorem declaration (h : Rewritten w rule dangling s) (rest : List Token) :
    Declaration rule (w.stmt s ++ rest) s rest := by
  obtain ⟨_, _, again⟩ := h
  exact .statement (again rest)

private theorem block {body : List Stmt}
    (inner : ∀ rest, Declarations rule (w.stmts body ++ rest) body rest) :
    Rewritten w rule dangling (.block body) := by
  refine closed fun rest => ?_
  simp only [Spelling.stmt, List.append_assoc, List.cons_append, List.nil_append]
  exact .block (w.kind_mark _) (inner _) (w.kind_mark _)

private theorem pair {s' : Stmt} (first : ∀ rest, Declaration rule (w.stmt s ++ rest) s rest)
    (second : ∀ rest, Declaration rule (w.stmt s' ++ rest) s' rest) :
    Rewritten w rule dangling (.block [s, s']) := by
  refine block fun rest => ?_
  simp only [Spelling.stmts, List.append_assoc, List.append_nil]
  exact .cons (first _) (.cons (second _) .nil)

private theorem loop {condition : Expr}
    (again : ∀ rest, Expression (w.expr condition ++ rest) condition rest)
    (inner : Rewritten w rule dangling s) : Rewritten w rule dangling (.loop condition s) := by
  obtain ⟨dangling', le, inner⟩ := inner
  refine ⟨dangling', le, fun rest => ?_⟩
  simp only [Spelling.stmt, List.append_assoc, List.cons_append]
  exact .loop (w.kind_mark _) (w.kind_mark _) (again _) (w.kind_mark _) (inner rest)

private theorem forBody {increment : Option Expr}
    (again : ∀ e ∈ increment, ∀ rest, Expression (w.expr e ++ rest) e rest)
    (inner : Rewritten w rule dangling s) :
    Rewritten w rule dangling (forBody increment s) := by
  cases increment with
  | none => exact inner
  | some e =>
    refine pair inner.declaration fun rest => ?_
    simp only [Spelling.stmt, List.append_assoc, List.cons_append, List.nil_append]
    exact .statement (.expression (.intro (again e rfl _) (w.kind_mark _)))

private theorem forTree {initializer : Option Stmt} {condition increment : Option Expr}
    (first : ∀ s ∈ initializer, ∀ rest, Declaration rule (w.stmt s ++ rest) s rest)
    (again : ∀ rest, Expression (w.expr (condition.getD (.literal (.bool true))) ++ rest)
      (condition.getD (.literal (.bool true))) rest)
    (step : ∀ e ∈ increment, ∀ rest, Expression (w.expr e ++ rest) e rest)
    (inner : Rewritten w rule dangling s) :
    Rewritten w rule dangling (forTree initializer condition increment s) := by
  have whole := loop again (forBody step inner)
  cases initializer with
  | none => exact whole
  | some s => exact pair (first s rfl) whole.declaration

end Rewritten

/-- A `for` with nothing between its semicolons is written as a `while`. -/
example (w : Spelling) (name : Token) :
    w.stmt (Grammar.forTree none none none (.print (.variable 0 name))) =
      [w.mark .whileWord, w.mark .leftParen, w.literal (.bool true), w.mark .rightParen,
        w.mark .printWord, name, w.mark .semicolon] := rfl

mutual

private theorem Statement.rewritten {rule} : ∀
    {dangling ts s rest}, Statement rule dangling ts s rest →
    Rewritten w rule dangling s
  | _, _, _, _, .expression statement =>
    .closed fun rest' => .expression (statement.rewritten w rest')
  | _, _, _, _, .print _ e _ => .closed fun rest' => by
    simp only [Spelling.stmt, List.append_assoc, List.cons_append, List.nil_append]
    exact .print (w.kind_mark _) (e.rewritten w _) (w.kind_mark _)
  | _, _, _, _, .ret keyword value _ => .closed fun rest' => by
    simp only [Spelling.stmt, List.append_assoc, List.cons_append, List.nil_append]
    exact .ret keyword (value.rewritten w _) (w.kind_mark _)
  | _, _, _, _, .loop _ _ condition _ body => .loop (condition.rewritten w) body.rewritten
  | _, _, _, _, .ifThen _ _ condition _ thenBranch => by
    obtain ⟨dangling, _, branch⟩ := thenBranch.rewritten
    refine ⟨true, fun _ => rfl, fun rest' => ?_⟩
    simp only [Spelling.stmt, Spelling.otherwise, List.append_assoc, List.cons_append,
      List.nil_append]
    exact .ifThen (w.kind_mark _) (w.kind_mark _) (condition.rewritten w _) (w.kind_mark _)
      (branch rest')
  | _, _, _, _, .ifElse _ _ condition _ thenBranch _ nearest elseBranch => by
    obtain ⟨before, fewer, branch⟩ := thenBranch.rewritten
    obtain ⟨dangling, le, branch'⟩ := elseBranch.rewritten
    refine ⟨dangling, le, fun rest' => ?_⟩
    simp only [Spelling.stmt, Spelling.otherwise, List.append_assoc, List.cons_append]
    -- Before the `else` stands what ends with no open `if`, as it did.
    have nearest' : rule = .nearestIf → before = false := fun usual =>
      Bool.eq_false_iff.mpr fun opened => Bool.eq_false_iff.mp (nearest usual) (fewer opened)
    exact .ifElse (w.kind_mark _) (w.kind_mark _) (condition.rewritten w _) (w.kind_mark _)
      (branch _) (w.kind_mark _) nearest' (branch' rest')
  | _, _, _, _, .forLoop _ _ initializer condition _ increment _ body =>
    .forTree (initializer.rewritten w) (condition.condition w) (increment.rewritten_some w)
      body.rewritten
  | _, _, _, _, .block _ body _ => .block body.rewritten

private theorem Declaration.rewritten {rule} : ∀ {ts s rest}, Declaration rule ts s rest →
    ∀ rest', Declaration rule (w.stmt s ++ rest') s rest'
  | _, _, _, .classDecl _ name _ methods _, rest' => by
    simp only [Spelling.stmt, List.append_assoc, List.cons_append, List.nil_append]
    exact .classDecl (w.kind_mark _) name (w.kind_mark _) (methods.rewritten _) (w.kind_mark _)
  | _, _, _, .subclass _ name _ superName _ methods _, rest' => by
    simp only [Spelling.stmt, Spelling.expr, List.append_assoc, List.cons_append, List.nil_append]
    exact .subclass (w.kind_mark _) name (w.kind_mark _) superName (w.kind_mark _)
      (methods.rewritten _) (w.kind_mark _)
  | _, _, _, .function _ function, rest' => by
    rw [Spelling.stmt]
    exact .function (w.kind_mark _) (function.rewritten rest')
  | _, _, _, .var decl, rest' => .var (decl.rewritten w rest')
  | _, _, _, .statement statement, rest' => statement.rewritten.declaration rest'

private theorem Declarations.rewritten {rule} : ∀ {ts ss rest}, Declarations rule ts ss rest →
    ∀ rest', Declarations rule (w.stmts ss ++ rest') ss rest'
  | _, _, _, .nil, _ => by
    rw [Spelling.stmts]
    exact .nil
  | _, _, _, .cons first others, rest' => by
    rw [Spelling.stmts, List.append_assoc]
    exact .cons (first.rewritten _) (others.rewritten rest')

private theorem Function.rewritten {rule} : ∀ {ts decl rest}, Function rule ts decl rest →
    ∀ rest', Function rule (w.function decl ++ rest') decl rest'
  | _, _, _, .intro name _ params _ limit _ body _, rest' => by
    simp only [Spelling.function, List.append_assoc, List.cons_append, List.nil_append]
    exact .intro name (w.kind_mark _) (params.rewritten w _) (w.kind_mark _) limit (w.kind_mark _)
      (body.rewritten _) (w.kind_mark _)

private theorem Methods.rewritten {rule} : ∀ {ts decls rest}, Methods rule ts decls rest →
    ∀ rest', Methods rule (w.functions decls ++ rest') decls rest'
  | _, _, _, .nil, _ => by
    rw [Spelling.functions]
    exact .nil
  | _, _, _, .cons first others, rest' => by
    rw [Spelling.functions, List.append_assoc]
    exact .cons (first.rewritten _) (others.rewritten rest')

end

private theorem Program.rewritten {rule : ElseRule} {tokens : List Token} {program : List Stmt}
    (h : Program rule tokens program) : Program rule (w.unparse program) program := by
  have again := Declarations.rewritten w h []
  rwa [List.append_nil] at again

end

end Grammar

/-- An expression that was parsed is parsed again from the tokens written for it. -/
theorem parse_written_expression {labels : Labels} {tokens : List Token} {lastLine : Nat}
    {e : Expr} (parsed : (parseExpression labels tokens lastLine).result = .ok e) (w : Spelling)
    (labels' : Labels) (lastLine' : Nat) :
    ∃ e', (parseExpression labels' (w.expr e) lastLine').result = .ok e' ∧ erased e' = erased e := by
  have derived := (parseExpression_sound parsed).1.rewritten w []
  rw [List.append_nil] at derived
  exact parseExpression_complete derived labels' lastLine'

/-- A tree that was parsed is written as tokens from which the same tree is parsed again, but for its
numbers, whatever the marks and the constants are spelled like. -/
theorem parse_written {labels : Labels} {tokens : List Token} {lastLine : Nat}
    {program : List Stmt} (parsed : (parseProgram labels tokens lastLine).result = .ok program)
    (w : Spelling) (labels' : Labels) (lastLine' : Nat) :
    ∃ program', (parseProgram labels' (w.unparse program) lastLine').result = .ok program' ∧
      erased program' = erased program :=
  parseProgram_complete ((parseProgram_sound parsed).1.rewritten w) labels' lastLine'

/-- A `for` between two `if` and one `else`, written and parsed again. -/
theorem loop_before_else_written :
    let tokens := (scan "if (a) for (var i = b; i; i = -c.d * (e)) if (f) g(h, i); else j;").tokens
    ∃ program program', ∃ w : Spelling,
      (parseProgram ⟨0, 0⟩ tokens 1).result = .ok program ∧
      (parseProgram ⟨0, 0⟩ (w.unparse program) 1).result = .ok program' ∧
      erased program' = erased program := by
  intro tokens
  have accepted : (parseProgram ⟨0, 0⟩ tokens 1).result.isOk = true := by decide +kernel
  obtain ⟨w⟩ : Nonempty Spelling := inferInstance
  cases parsed : (parseProgram ⟨0, 0⟩ tokens 1).result with
  | error _ =>
    rw [parsed] at accepted
    cases accepted
  | ok program =>
    obtain ⟨program', again, same⟩ := parse_written parsed w ⟨0, 0⟩ 1
    exact ⟨program, program', w, rfl, again, same⟩

end LoxLang
