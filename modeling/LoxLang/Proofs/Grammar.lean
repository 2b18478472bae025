import LoxLang.Parse

/-!
The grammar of the language, as relations between a list of tokens, the tree that a piece at its
front denotes, and the tokens behind that piece.  Numbers of expressions and of declarations play
no part in it: a tree may carry any.

The grammar leaves open to which `if` an `else` belongs.  A statement therefore says whether it
ends with an `if` that has no `else`; the usual reading forbids such a statement before `else`.
-/

set_option autoImplicit false
set_option relaxedAutoImplicit false

namespace LoxLang

namespace Grammar

/-- A level of binary operators. -/
inductive Tier where
  | or
  | and
  | equality
  | comparison
  | term
  | factor
  deriving DecidableEq

/-- The operators of a level. -/
def Tier.operators : Tier → List Kind
  | or => [.orWord]
  | and => [.andWord]
  | equality => [.bangEqual, .equalEqual]
  | comparison => [.greater, .greaterEqual, .less, .lessEqual]
  | term => [.minus, .plus]
  | factor => [.slash, .star]

/-- The node that an operator of a level makes. -/
def Tier.node : Tier → Token → Expr → Expr → Expr
  | or, operator, left, right | and, operator, left, right => .logical operator left right
  | _, operator, left, right => .binary operator left right

/-- All levels, from the one that binds loosest to the one that binds tightest. -/
def tiers : List Tier := [.or, .and, .equality, .comparison, .term, .factor]

mutual

/-- expression → assignment;
assignment → ( call "." )? IDENT "=" assignment | logic_or -/
inductive Expression : List Token → Expr → List Token → Prop where
  | assign {id : ExprId} {name equals : Token} {ts rest : List Token} {e : Expr} :
      name.kind = .identifier → equals.kind = .equal → Expression ts e rest →
      Expression (name :: equals :: ts) (.assign id name e) rest
  | set {object e : Expr} {dot name equals : Token} {us ts rest : List Token} :
      Call us object (dot :: name :: equals :: ts) → dot.kind = .dot →
      name.kind = .identifier → equals.kind = .equal → Expression ts e rest →
      Expression us (.set object name e) rest
  | operation {ts rest : List Token} {e : Expr} :
      Operation tiers ts e rest → Expression ts e rest

/-- A level of operators over the tighter ones, such as
logic_or → logic_and ( "or" logic_and )*; below the last level stands unary. -/
inductive Operation : List Tier → List Token → Expr → List Token → Prop where
  | unary {ts rest : List Token} {e : Expr} : Unary ts e rest → Operation [] ts e rest
  | level {tier : Tier} {tighter : List Tier} {ts mid rest : List Token} {e e' : Expr} :
      Operation tighter ts e mid → Chain tier tighter e mid e' rest →
      Operation (tier :: tighter) ts e' rest

/-- Operators of one level, with their right operands, behind what stands left of them.  Each
takes all that is left of it as its left operand. -/
inductive Chain : Tier → List Tier → Expr → List Token → Expr → List Token → Prop where
  | done {tier : Tier} {tighter : List Tier} {left : Expr} {ts : List Token} :
      Chain tier tighter left ts left ts
  | step {tier : Tier} {tighter : List Tier} {left right e : Expr} {operator : Token}
      {ts mid rest : List Token} :
      operator.kind ∈ tier.operators → Operation tighter ts right mid →
      Chain tier tighter (tier.node operator left right) mid e rest →
      Chain tier tighter left (operator :: ts) e rest

/-- unary → ( "!" | "-" ) unary | call -/
inductive Unary : List Token → Expr → List Token → Prop where
  | operator {operator : Token} {ts rest : List Token} {e : Expr} :
      operator.kind = .bang ∨ operator.kind = .minus → Unary ts e rest →
      Unary (operator :: ts) (.unary operator e) rest
  | call {ts rest : List Token} {e : Expr} : Call ts e rest → Unary ts e rest

/-- call → primary ( "(" arguments? ")" | "." IDENT )* -/
inductive Call : List Token → Expr → List Token → Prop where
  | intro {ts mid rest : List Token} {e e' : Expr} :
      Primary ts e mid → Suffixes e mid e' rest → Call ts e' rest

/-- Calls and properties behind an expression. -/
inductive Suffixes : Expr → List Token → Expr → List Token → Prop where
  | done {e : Expr} {ts : List Token} : Suffixes e ts e ts
  | call {e e' : Expr} {left right : Token} {ts mid rest : List Token} {args : List Expr} :
      left.kind = .leftParen → Arguments ts args (right :: mid) → right.kind = .rightParen →
      args.length ≤ maxArity → Suffixes (.call e right args) mid e' rest →
      Suffixes e (left :: ts) e' rest
  | property {e e' : Expr} {dot name : Token} {ts rest : List Token} :
      dot.kind = .dot → name.kind = .identifier → Suffixes (.get e name) ts e' rest →
      Suffixes e (dot :: name :: ts) e' rest

/-- arguments? -/
inductive Arguments : List Token → List Expr → List Token → Prop where
  | none {ts : List Token} : Arguments ts [] ts
  | some {ts rest : List Token} {args : List Expr} :
      ArgumentList ts args rest → Arguments ts args rest

/-- arguments → expression ( "," expression )* -/
inductive ArgumentList : List Token → List Expr → List Token → Prop where
  | one {ts rest : List Token} {e : Expr} : Expression ts e rest → ArgumentList ts [e] rest
  | more {ts mid rest : List Token} {e : Expr} {comma : Token} {args : List Expr} :
      Expression ts e (comma :: mid) → comma.kind = .comma → ArgumentList mid args rest →
      ArgumentList ts (e :: args) rest

/-- primary → NUMBER | STRING | "true" | "false" | "nil" | "this" | IDENT
| "(" expression ")" | "super" "." IDENT -/
inductive Primary : List Token → Expr → List Token → Prop where
  | number {t : Token} {ts : List Token} :
      t.kind = .number → Primary (t :: ts) (.literal (.number t.numberValue)) ts
  | string {t : Token} {ts : List Token} :
      t.kind = .string → Primary (t :: ts) (.literal (.string t.stringValue)) ts
  | trueWord {t : Token} {ts : List Token} :
      t.kind = .trueWord → Primary (t :: ts) (.literal (.bool true)) ts
  | falseWord {t : Token} {ts : List Token} :
      t.kind = .falseWord → Primary (t :: ts) (.literal (.bool false)) ts
  | nilWord {t : Token} {ts : List Token} :
      t.kind = .nilWord → Primary (t :: ts) (.literal .nil) ts
  | this {id : ExprId} {t : Token} {ts : List Token} :
      t.kind = .thisWord → Primary (t :: ts) (.this id t) ts
  | name {id : ExprId} {t : Token} {ts : List Token} :
      t.kind = .identifier → Primary (t :: ts) (.variable id t) ts
  | grouping {left right : Token} {ts rest : List Token} {e : Expr} :
      left.kind = .leftParen → Expression ts e (right :: rest) → right.kind = .rightParen →
      Primary (left :: ts) (.grouping e) rest
  | super {id : ExprId} {keyword dot method : Token} {ts : List Token} :
      keyword.kind = .superWord → dot.kind = .dot → method.kind = .identifier →
      Primary (keyword :: dot :: method :: ts) (.super id keyword method) ts

end

/-- expression? -/
inductive OptionalExpression : List Token → Option Expr → List Token → Prop where
  | none {ts : List Token} : OptionalExpression ts none ts
  | some {ts rest : List Token} {e : Expr} :
      Expression ts e rest → OptionalExpression ts (some e) rest

/-- exprStmt → expression ";" -/
inductive ExpressionStatement : List Token → Stmt → List Token → Prop where
  | intro {ts rest : List Token} {e : Expr} {semicolon : Token} :
      Expression ts e (semicolon :: rest) → semicolon.kind = .semicolon →
      ExpressionStatement ts (.expression e) rest

/-- varDecl → "var" IDENT ( "=" expression )? ";" -/
inductive VarDeclaration : List Token → Stmt → List Token → Prop where
  | bare {keyword name semicolon : Token} {rest : List Token} :
      keyword.kind = .varWord → name.kind = .identifier → semicolon.kind = .semicolon →
      VarDeclaration (keyword :: name :: semicolon :: rest) (.var name none) rest
  | initialized {keyword name equals semicolon : Token} {ts rest : List Token} {e : Expr} :
      keyword.kind = .varWord → name.kind = .identifier → equals.kind = .equal →
      Expression ts e (semicolon :: rest) → semicolon.kind = .semicolon →
      VarDeclaration (keyword :: name :: equals :: ts) (.var name (some e)) rest

/-- What stands first between the parentheses of a `for`: ( varDecl | exprStmt | ";" ). -/
inductive ForInitializer : List Token → Option Stmt → List Token → Prop where
  | none {semicolon : Token} {rest : List Token} :
      semicolon.kind = .semicolon → ForInitializer (semicolon :: rest) none rest
  | var {ts rest : List Token} {s : Stmt} :
      VarDeclaration ts s rest → ForInitializer ts (some s) rest
  | expression {ts rest : List Token} {s : Stmt} :
      ExpressionStatement ts s rest → ForInitializer ts (some s) rest

/-- The body of the loop that a `for` stands for, in an inner block with the increment if there
is one. -/
def forBody (increment : Option Expr) (body : Stmt) : Stmt :=
  match increment with
  | none => body
  | some e => .block [body, .expression e]

/-- The statement that a `for` stands for: a `while` loop, which goes on for ever without a
condition, in an outer block with the initializer if there is one. -/
def forTree (initializer : Option Stmt) (condition increment : Option Expr) (body : Stmt) :
    Stmt :=
  let loop := Stmt.loop (condition.getD (.literal (.bool true))) (forBody increment body)
  match initializer with
  | none => loop
  | some s => .block [s, loop]

/-- parameters → IDENT ( "," IDENT )* -/
inductive ParameterList : List Token → List Token → List Token → Prop where
  | one {name : Token} {rest : List Token} :
      name.kind = .identifier → ParameterList (name :: rest) [name] rest
  | more {name comma : Token} {ts rest params : List Token} :
      name.kind = .identifier → comma.kind = .comma → ParameterList ts params rest →
      ParameterList (name :: comma :: ts) (name :: params) rest

/-- parameters? -/
inductive Parameters : List Token → List Token → List Token → Prop where
  | none {ts : List Token} : Parameters ts [] ts
  | some {ts rest params : List Token} :
      ParameterList ts params rest → Parameters ts params rest

/-- To which `if` an `else` may belong. -/
inductive ElseRule where
  | anyIf
  | nearestIf
  deriving DecidableEq

mutual

/-- statement → exprStmt | forStmt | ifStmt | printStmt | returnStmt | whileStmt | block; the
flag tells whether the statement ends with an `if` without `else`. -/
inductive Statement (rule : ElseRule) : Bool → List Token → Stmt → List Token → Prop where
  | expression {ts rest : List Token} {s : Stmt} :
      ExpressionStatement ts s rest → Statement rule false ts s rest
  | print {keyword semicolon : Token} {ts rest : List Token} {e : Expr} :
      keyword.kind = .printWord → Expression ts e (semicolon :: rest) →
      semicolon.kind = .semicolon → Statement rule false (keyword :: ts) (.print e) rest
  | ret {keyword semicolon : Token} {ts rest : List Token}
      {value : Option Expr} :
      keyword.kind = .returnWord → OptionalExpression ts value (semicolon :: rest) →
      semicolon.kind = .semicolon → Statement rule false (keyword :: ts) (.ret keyword value) rest
  | loop {dangling : Bool} {keyword left right : Token}
      {ts mid rest : List Token} {condition : Expr} {body : Stmt} :
      keyword.kind = .whileWord → left.kind = .leftParen →
      Expression ts condition (right :: mid) → right.kind = .rightParen →
      Statement rule dangling mid body rest →
      Statement rule dangling (keyword :: left :: ts) (.loop condition body) rest
  | ifThen {dangling : Bool} {keyword left right : Token}
      {ts mid rest : List Token} {condition : Expr} {thenBranch : Stmt} :
      keyword.kind = .ifWord → left.kind = .leftParen →
      Expression ts condition (right :: mid) → right.kind = .rightParen →
      Statement rule dangling mid thenBranch rest →
      Statement rule true (keyword :: left :: ts) (.branch condition thenBranch none) rest
  | ifElse {before dangling : Bool} {keyword left right elseWord : Token}
      {ts mid mid' rest : List Token} {condition : Expr} {thenBranch elseBranch : Stmt} :
      keyword.kind = .ifWord → left.kind = .leftParen →
      Expression ts condition (right :: mid) → right.kind = .rightParen →
      Statement rule before mid thenBranch (elseWord :: mid') → elseWord.kind = .elseWord →
      (rule = .nearestIf → before = false) → Statement rule dangling mid' elseBranch rest →
      Statement rule dangling (keyword :: left :: ts)
        (.branch condition thenBranch (some elseBranch)) rest
  | forLoop {dangling : Bool} {keyword left semicolon right : Token}
      {ts ts' ts'' mid rest : List Token} {initializer : Option Stmt}
      {condition increment : Option Expr} {body : Stmt} :
      keyword.kind = .forWord → left.kind = .leftParen → ForInitializer ts initializer ts' →
      OptionalExpression ts' condition (semicolon :: ts'') → semicolon.kind = .semicolon →
      OptionalExpression ts'' increment (right :: mid) → right.kind = .rightParen →
      Statement rule dangling mid body rest →
      Statement rule dangling (keyword :: left :: ts)
        (forTree initializer condition increment body) rest
  | block {left right : Token} {ts rest : List Token} {body : List Stmt} :
      left.kind = .leftBrace → Declarations rule ts body (right :: rest) →
      right.kind = .rightBrace → Statement rule false (left :: ts) (.block body) rest

/-- declaration → classDecl | funDecl | varDecl | statement -/
inductive Declaration (rule : ElseRule) : List Token → Stmt → List Token → Prop where
  | classDecl {keyword name left right : Token} {ts rest : List Token}
      {methods : List FunctionDecl} :
      keyword.kind = .classWord → name.kind = .identifier → left.kind = .leftBrace →
      Methods rule ts methods (right :: rest) → right.kind = .rightBrace →
      Declaration rule (keyword :: name :: left :: ts) (.classDecl name none methods) rest
  | subclass {id : ExprId} {keyword name less superName left right : Token}
      {ts rest : List Token} {methods : List FunctionDecl} :
      keyword.kind = .classWord → name.kind = .identifier → less.kind = .less →
      superName.kind = .identifier → left.kind = .leftBrace →
      Methods rule ts methods (right :: rest) → right.kind = .rightBrace →
      Declaration rule (keyword :: name :: less :: superName :: left :: ts)
        (.classDecl name (some (.variable id superName)) methods) rest
  | function {keyword : Token} {ts rest : List Token} {decl : FunctionDecl} :
      keyword.kind = .funWord → Function rule ts decl rest →
      Declaration rule (keyword :: ts) (.function decl) rest
  | var {ts rest : List Token} {s : Stmt} :
      VarDeclaration ts s rest → Declaration rule ts s rest
  | statement {dangling : Bool} {ts rest : List Token} {s : Stmt} :
      Statement rule dangling ts s rest → Declaration rule ts s rest

/-- declaration* -/
inductive Declarations (rule : ElseRule) : List Token → List Stmt → List Token → Prop where
  | nil {ts : List Token} : Declarations rule ts [] ts
  | cons {ts mid rest : List Token} {s : Stmt} {ss : List Stmt} :
      Declaration rule ts s mid → Declarations rule mid ss rest →
      Declarations rule ts (s :: ss) rest

/-- function → IDENT "(" parameters? ")" block;  block → "{" declaration* "}" -/
inductive Function (rule : ElseRule) : List Token → FunctionDecl → List Token → Prop where
  | intro {site : SiteId} {name left right opening closing : Token}
      {ts mid params rest : List Token} {body : List Stmt} :
      name.kind = .identifier → left.kind = .leftParen →
      Parameters ts params (right :: opening :: mid) → right.kind = .rightParen →
      params.length ≤ maxArity → opening.kind = .leftBrace →
      Declarations rule mid body (closing :: rest) → closing.kind = .rightBrace →
      Function rule (name :: left :: ts) (.mk site name params body) rest

/-- function* -/
inductive Methods (rule : ElseRule) : List Token → List FunctionDecl → List Token → Prop where
  | nil {ts : List Token} : Methods rule ts [] ts
  | cons {ts mid rest : List Token} {decl : FunctionDecl}
      {decls : List FunctionDecl} :
      Function rule ts decl mid → Methods rule mid decls rest →
      Methods rule ts (decl :: decls) rest

end

/-- program → declaration* -/
def Program (rule : ElseRule) (tokens : List Token) (program : List Stmt) : Prop :=
  Declarations rule tokens program []

end Grammar

end LoxLang
