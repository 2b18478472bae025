import LoxLang.Token

/-!
Syntax trees.  Every expression whose meaning depends on a binding (a variable, an assignment,
`this`, `super`) carries a number of its own, and so does every function declaration: the number
stands for the place in the text at which it was written.
-/

set_option autoImplicit false
set_option relaxedAutoImplicit false

namespace LoxLang

/-- The number of an expression whose binding is looked up. -/
abbrev ExprId := Nat

/-- The number of a function declaration. -/
abbrev SiteId := Nat

/-- A constant. -/
inductive Literal where
  | number (x : Float)
  | string (s : String)
  | bool (b : Bool)
  | nil
  deriving DecidableEq

/-- An expression.  Tokens are kept where a later stage points at them. -/
inductive Expr where
  | literal (value : Literal)
  | grouping (inner : Expr)
  | unary (operator : Token) (operand : Expr)
  | binary (operator : Token) (left right : Expr)
  | logical (operator : Token) (left right : Expr)
  | variable (id : ExprId) (name : Token)
  | assign (id : ExprId) (name : Token) (value : Expr)
  /-- A call; the token is the closing parenthesis. -/
  | call (callee : Expr) (paren : Token) (arguments : List Expr)
  | get (object : Expr) (name : Token)
  | set (object : Expr) (name : Token) (value : Expr)
  | this (id : ExprId) (keyword : Token)
  | super (id : ExprId) (keyword method : Token)

mutual

/-- The declaration of a function or a method. -/
inductive FunctionDecl where
  | mk (site : SiteId) (name : Token) (params : List Token) (body : List Stmt)

/-- A statement or declaration. -/
inductive Stmt where
  | expression (e : Expr)
  | print (e : Expr)
  | var (name : Token) (initializer : Option Expr)
  | block (body : List Stmt)
  | branch (condition : Expr) (thenBranch : Stmt) (elseBranch : Option Stmt)
  | loop (condition : Expr) (body : Stmt)
  | function (decl : FunctionDecl)
  | ret (keyword : Token) (value : Option Expr)
  | classDecl (name : Token) (superclass : Option Expr) (methods : List FunctionDecl)

end

namespace FunctionDecl

/-- The number of a declaration. -/
def site : FunctionDecl → SiteId
  | mk site _ _ _ => site

/-- The name that a declaration gives. -/
def name : FunctionDecl → Token
  | mk _ name _ _ => name

/-- The parameters, in order. -/
def params : FunctionDecl → List Token
  | mk _ _ params _ => params

/-- The statements of the body. -/
def body : FunctionDecl → List Stmt
  | mk _ _ _ body => body

end FunctionDecl

/-- Whether an expression is a plain variable, and then its name. -/
def Expr.variableName? : Expr → Option Token
  | .variable _ name => some name
  | _ => none

end LoxLang
