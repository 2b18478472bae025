import LoxLang.Token.Scan
import LoxLang.Tree

/-!
The ground of parsing: what can be wrong with the order of tokens, the state that a parser works
on, and the steps that all rules are made of.  A rule consumes tokens from the front, hands out
numbers, may note errors and go on, or ends with one.
-/

set_option autoImplicit false
set_option relaxedAutoImplicit false

namespace LoxLang

/-- Whether a function stands alone or in the body of a class. -/
inductive FunctionRole where
  | function
  | method
  deriving DecidableEq

def FunctionRole.noun : FunctionRole → String
  | .function => "function"
  | .method => "method"

/-- What a rule looks for. -/
inductive Expected where
  | expression
  | endOfExpression
  | className
  | superclassName
  | classOpening
  | classClosing
  | functionName (role : FunctionRole)
  | paramsOpening (role : FunctionRole)
  | paramName
  | paramsClosing
  | bodyOpening (role : FunctionRole)
  | variableName
  | variableEnd
  | forOpening
  | forConditionEnd
  | forClosing
  | ifOpening
  | ifClosing
  | printEnd
  | returnEnd
  | whileOpening
  | whileClosing
  | expressionEnd
  | blockClosing
  | propertyName
  | argumentsClosing
  | superDot
  | superMethodName
  | groupClosing
  deriving DecidableEq

def Expected.text : Expected → String
  | .expression => "expression"
  | .endOfExpression => "end of expression"
  | .className => "class name"
  | .superclassName => "superclass name"
  | .classOpening => "'\x7b' before class body"
  | .classClosing => "'\x7d' after class body"
  | .functionName role => role.noun ++ " name"
  | .paramsOpening role => "'(' after " ++ role.noun ++ " name"
  | .paramName => "parameter name"
  | .paramsClosing => "')' after parameters"
  | .bodyOpening role => "'\x7b' before " ++ role.noun ++ " body"
  | .variableName => "variable name"
  | .variableEnd => "';' after variable declaration"
  | .forOpening => "'(' after 'for'"
  | .forConditionEnd => "';' after loop condition"
  | .forClosing => "')' after for clauses"
  | .ifOpening => "'(' after 'if'"
  | .ifClosing => "')' after if condition"
  | .printEnd => "';' after value"
  | .returnEnd => "';' after return value"
  | .whileOpening => "'(' after 'while'"
  | .whileClosing => "')' after condition"
  | .expressionEnd => "';' after expression"
  | .blockClosing => "'\x7d' after block"
  | .propertyName => "property name after '.'"
  | .argumentsClosing => "')' after arguments"
  | .superDot => "'.' after 'super'"
  | .superMethodName => "superclass method name"
  | .groupClosing => "')' after expression"

/-- The greatest number of parameters of a function and of arguments of a call. -/
def maxArity : Nat := 255

/-- What is wrong at a token. -/
inductive SyntaxFault where
  | missing (expected : Expected)
  | tooManyParams
  | tooManyArguments
  | invalidAssignmentTarget
  deriving DecidableEq

def SyntaxFault.message : SyntaxFault → String
  | .missing expected => "Expect " ++ expected.text ++ "."
  | .tooManyParams => "Can't have more than " ++ toString maxArity ++ " parameters."
  | .tooManyArguments => "Can't have more than " ++ toString maxArity ++ " arguments."
  | .invalidAssignmentTarget => "Invalid assignment target."

/-- A fault in the order of tokens and the token at which it shows. -/
structure SyntaxError where
  token : Token
  fault : SyntaxFault
  deriving DecidableEq

/-- The numbers that the next expression and the next function declaration get. -/
structure Labels where
  expr : ExprId
  site : SiteId
  deriving DecidableEq

/-- What a parser works on: the tokens ahead, the line of the mark behind them, the numbers to hand
out, and the errors noted so far, first one first. -/
structure ParseState where
  ahead : List Token
  lastLine : Nat
  labels : Labels
  errors : List SyntaxError

/-- A rule. -/
abbrev ParseM := ExceptT SyntaxError (StateM ParseState)

namespace Parse

def peek : ParseM Token := do
  let s ← get
  pure (s.ahead.head?.getD (.atEnd s.lastLine))

/-- Whether no token is ahead. -/
def atEnd : ParseM Bool := do
  return (← get).ahead.isEmpty

/-- Whether the next token is of a kind. -/
def check (kind : Kind) : ParseM Bool := do
  return (← get).ahead.head?.any (·.kind = kind)

/-- Consumes the next token if it is of one of some kinds. -/
def acceptAny (kinds : List Kind) : ParseM (Option Token) := do
  let s ← get
  match s.ahead with
  | t :: ahead =>
    if t.kind ∈ kinds then
      set { s with ahead }
      pure (some t)
    else pure none
  | [] => pure none

/-- Consumes the next token if it is of a kind. -/
def accept (kind : Kind) : ParseM (Option Token) := acceptAny [kind]

/-- Ends the rule with a fault at the next token. -/
def fail {α : Type} (expected : Expected) : ParseM α := do
  throw ⟨← peek, .missing expected⟩

/-- Consumes a token of a kind, which has to be next. -/
def expect (kind : Kind) (expected : Expected) : ParseM Token := do
  match ← accept kind with
  | some t => pure t
  | none => fail expected

/-- Notes an error and goes on. -/
def report (e : SyntaxError) : ParseM Unit :=
  modify fun s => { s with errors := s.errors ++ [e] }

/-- A number for an expression. -/
def freshExpr : ParseM ExprId := do
  let s ← get
  set { s with labels := { s.labels with expr := s.labels.expr + 1 } }
  pure s.labels.expr

def freshSite : ParseM SiteId := do
  let s ← get
  set { s with labels := { s.labels with site := s.labels.site + 1 } }
  pure s.labels.site

end Parse

end LoxLang
