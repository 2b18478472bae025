import LoxLang.Value
import Std.Data.TreeMap

/-!
Resolving the names of a program before it is executed.  A walk over the tree keeps the scopes
around the present place, innermost first, each with the names declared in it so far.  It records
for every expression that refers to a local name how many scopes out that name is declared, and
notes what breaks the rules of declarations, `return`, `this` and `super`.
-/

set_option autoImplicit false
set_option relaxedAutoImplicit false

namespace LoxLang

open Std (TreeMap)

/-- What breaks a rule of binding. -/
inductive BindingFault where
  | redeclared
  | readInInitializer
  | returnOutsideFunction
  | returnFromInitializer
  | inheritsFromItself
  | thisOutsideClass
  | superOutsideClass
  | superWithoutSuperclass
  deriving DecidableEq

def BindingFault.message : BindingFault → String
  | .redeclared => "Already a variable with this name in this scope."
  | .readInInitializer => "Can't read local variable in its own initializer."
  | .returnOutsideFunction => "Can't return from top-level code."
  | .returnFromInitializer => "Can't return a value from an initializer."
  | .inheritsFromItself => "A class can't inherit from itself."
  | .thisOutsideClass => "Can't use 'this' outside of a class."
  | .superOutsideClass => "Can't use 'super' outside of a class."
  | .superWithoutSuperclass => "Can't use 'super' in a class with no superclass."

/-- A fault and the token at which it shows. -/
structure BindingError where
  token : Token
  fault : BindingFault
  deriving DecidableEq

/-- The function around the present place, if any. -/
inductive FunctionContext where
  | outside
  | function
  | initializer
  | method
  deriving DecidableEq

/-- The class around the present place, if any. -/
inductive ClassContext where
  | outside
  | plain
  | derived
  deriving DecidableEq

/-- What encloses the present place. -/
structure BindingContext where
  function : FunctionContext
  enclosing : ClassContext
  deriving DecidableEq

def BindingContext.top : BindingContext := ⟨.outside, .outside⟩

def methodContext (name : String) : FunctionContext :=
  if name = initializerName then .initializer else .method

/-- The names declared in a scope; those whose declaration is complete are marked. -/
abbrev StaticScope := TreeMap String Bool

/-- How many scopes out the name of an expression is declared; an expression without an entry
refers to a global name. -/
abbrev Distances := TreeMap ExprId Nat

/-- The scopes around the present place, innermost first, the distances recorded so far, and the
errors noted so far, first one first. -/
structure ResolveState where
  scopes : List StaticScope
  distances : Distances
  errors : List BindingError

abbrev ResolveM := StateM ResolveState

namespace Resolve

def report (token : Token) (fault : BindingFault) : ResolveM Unit :=
  modify fun s => { s with errors := s.errors ++ [⟨token, fault⟩] }

def mark (name : String) (complete : Bool) : ResolveM Unit :=
  modify fun s =>
    match s.scopes with
    | [] => s
    | scope :: outer => { s with scopes := scope.insert name complete :: outer }

def declare (name : Token) : ResolveM Unit := do
  if ((← get).scopes.head?.any (·.contains name.lexeme)) then report name .redeclared
  else mark name.lexeme false

def define (name : Token) : ResolveM Unit := mark name.lexeme true

def inScope (step : ResolveM Unit) : ResolveM Unit := do
  modify fun s => { s with scopes := ∅ :: s.scopes }
  step
  modify fun s => { s with scopes := s.scopes.tail }

def bind (id : ExprId) (name : Token) : ResolveM Unit :=
  modify fun s =>
    match s.scopes.findIdx? (·.contains name.lexeme) with
    | some distance => { s with distances := s.distances.insert id distance }
    | none => s

mutual

def expr (enclosing : ClassContext) : Expr → ResolveM Unit
  | .literal _ => pure ()
  | .grouping inner => expr enclosing inner
  | .unary _ operand => expr enclosing operand
  | .binary _ left right | .logical _ left right => do
    expr enclosing left
    expr enclosing right
  | .variable id name => do
    if (← get).scopes.head?.any (·[name.lexeme]? = some false) then report name .readInInitializer
    bind id name
  | .assign id name value => do
    expr enclosing value
    bind id name
  | .call callee _ arguments => do
    expr enclosing callee
    exprs enclosing arguments
  | .get object _ => expr enclosing object
  | .set object _ value => do
    expr enclosing value
    expr enclosing object
  | .this id keyword =>
    match enclosing with
    | .outside => report keyword .thisOutsideClass
    | .plain | .derived => bind id keyword
  | .super id keyword _ => do
    match enclosing with
    | .outside => report keyword .superOutsideClass
    | .plain => report keyword .superWithoutSuperclass
    | .derived => pure ()
    bind id keyword

def exprs (enclosing : ClassContext) : List Expr → ResolveM Unit
  | [] => pure ()
  | e :: es => do
    expr enclosing e
    exprs enclosing es

end

def expr? (enclosing : ClassContext) : Option Expr → ResolveM Unit
  | none => pure ()
  | some e => expr enclosing e

def checkReturn (context : FunctionContext) (keyword : Token) (hasValue : Bool) :
    ResolveM Unit := do
  if context = .outside then report keyword .returnOutsideFunction
  if hasValue && context = .initializer then report keyword .returnFromInitializer

def checkSuperclass (name : Token) (superclass : Expr) : ResolveM Unit :=
  match superclass.variableName? with
  | some superName =>
    if superName.lexeme = name.lexeme then report superName .inheritsFromItself else pure ()
  | none => pure ()

def introduce (name : Token) : ResolveM Unit := do
  declare name
  define name

def introduceAll : List Token → ResolveM Unit
  | [] => pure ()
  | name :: names => do
    introduce name
    introduceAll names

mutual

def stmt (context : BindingContext) : Stmt → ResolveM Unit
  | .expression e | .print e => expr context.enclosing e
  | .var name initializer => do
    declare name
    expr? context.enclosing initializer
    define name
  | .block body => inScope (stmts context body)
  | .branch condition thenBranch elseBranch => do
    expr context.enclosing condition
    stmt context thenBranch
    stmt? context elseBranch
  | .loop condition body => do
    expr context.enclosing condition
    stmt context body
  | .function decl => do
    introduce decl.name
    function context.enclosing .function decl
  | .ret keyword value => do
    checkReturn context.function keyword value.isSome
    expr? context.enclosing value
  | .classDecl name superclass methods => do
    introduce name
    match superclass with
    | none => inScope do
        mark "this" true
        functions .plain methods
    | some e =>
      checkSuperclass name e
      expr .derived e
      inScope do
        mark "super" true
        inScope do
          mark "this" true
          functions .derived methods

def stmt? (context : BindingContext) : Option Stmt → ResolveM Unit
  | none => pure ()
  | some s => stmt context s

def stmts (context : BindingContext) : List Stmt → ResolveM Unit
  | [] => pure ()
  | s :: ss => do
    stmt context s
    stmts context ss

def function (enclosing : ClassContext) (context : FunctionContext) :
    FunctionDecl → ResolveM Unit
  | .mk _ _ params body => inScope do
    introduceAll params
    stmts ⟨context, enclosing⟩ body

def functions (enclosing : ClassContext) : List FunctionDecl → ResolveM Unit
  | [] => pure ()
  | decl :: decls => do
    function enclosing (methodContext decl.name.lexeme) decl
    functions enclosing decls

end

end Resolve

/-- What resolving gives: the distances, and the errors in the order they were noted. -/
structure Resolved where
  distances : Distances
  errors : List BindingError

/-- Resolves the statements of a program at the top level, adding to the distances recorded for
earlier programs. -/
def resolve (distances : Distances) (program : List Stmt) : Resolved :=
  let (_, state) := (Resolve.stmts .top program).run ⟨[], distances, []⟩
  ⟨state.distances, state.errors⟩

end LoxLang
