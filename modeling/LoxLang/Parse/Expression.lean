import LoxLang.Parse.Basic

/-!
The rules for expressions.  Binary operators stand on six levels, from `or`, which binds loosest,
to `*` and `/`; all of them group to the left.  Above them stands assignment, which groups to the
right, below them the prefix operators, then calls and properties, then the primary forms.

A nested expression stands behind at least one token of the outer one, so the rules recurse on a
bound of the count of tokens ahead.
-/

set_option autoImplicit false
set_option relaxedAutoImplicit false

namespace LoxLang

namespace Parse

/-- One level of binary operators: their kinds and the node that they make. -/
structure Level where
  kinds : List Kind
  node : Token → Expr → Expr → Expr

def levels : List Level :=
  [⟨[.orWord], .logical⟩,
    ⟨[.andWord], .logical⟩,
    ⟨[.bangEqual, .equalEqual], .binary⟩,
    ⟨[.greater, .greaterEqual, .less, .lessEqual], .binary⟩,
    ⟨[.minus, .plus], .binary⟩,
    ⟨[.slash, .star], .binary⟩]

def primary (inner : ParseM Expr) : ParseM Expr := do
  match ← acceptAny [.falseWord, .trueWord, .nilWord, .number, .string, .thisWord, .superWord,
      .identifier, .leftParen] with
  | none => fail .expression
  | some t =>
    match t.kind with
    | .falseWord => pure (.literal (.bool false))
    | .trueWord => pure (.literal (.bool true))
    | .nilWord => pure (.literal .nil)
    | .number => pure (.literal (.number t.numberValue))
    | .string => pure (.literal (.string t.stringValue))
    | .thisWord => pure (.this (← freshExpr) t)
    | .superWord =>
      let _ ← expect .dot .superDot
      let method ← expect .identifier .superMethodName
      pure (.super (← freshExpr) t method)
    | .identifier => pure (.variable (← freshExpr) t)
    | _ =>
      let e ← inner
      let _ ← expect .rightParen .groupClosing
      pure (.grouping e)

def argumentsFrom (inner : ParseM Expr) : Nat → Nat → ParseM (List Expr)
  | 0, _ => fail .expression
  | bound + 1, count => do
    if maxArity ≤ count then report ⟨← peek, .tooManyArguments⟩
    let argument ← inner
    match ← accept .comma with
    | some _ => return argument :: (← argumentsFrom inner bound (count + 1))
    | none => return [argument]

def arguments (inner : ParseM Expr) (bound : Nat) : ParseM (List Expr) := do
  if ← check .rightParen then pure [] else argumentsFrom inner bound 0

def callsFrom (inner : ParseM Expr) : Nat → Expr → ParseM Expr
  | 0, e => pure e
  | bound + 1, e => do
    match ← acceptAny [.leftParen, .dot] with
    | none => pure e
    | some t =>
      if t.kind = .leftParen then
        let args ← arguments inner bound
        let paren ← expect .rightParen .argumentsClosing
        callsFrom inner bound (.call e paren args)
      else
        let name ← expect .identifier .propertyName
        callsFrom inner bound (.get e name)

def unary (inner : ParseM Expr) : Nat → ParseM Expr
  | 0 => fail .expression
  | bound + 1 => do
    match ← acceptAny [.bang, .minus] with
    | some operator => return .unary operator (← unary inner bound)
    | none =>
      let e ← primary inner
      callsFrom inner bound e

def chainFrom (level : Level) (operand : ParseM Expr) : Nat → Expr → ParseM Expr
  | 0, left => pure left
  | bound + 1, left => do
    match ← acceptAny level.kinds with
    | none => pure left
    | some operator =>
      let right ← operand
      chainFrom level operand bound (level.node operator left right)

def ofLevels (inner : ParseM Expr) (bound : Nat) : List Level → ParseM Expr
  | [] => unary inner bound
  | level :: rest => do
    let left ← ofLevels inner bound rest
    chainFrom level (ofLevels inner bound rest) bound left

/-- An assignment or an expression of the binary levels.  A target that is neither a variable nor
a property is noted, and the expression is the target alone. -/
def assignment (inner : ParseM Expr) (bound : Nat) : ParseM Expr := do
  let target ← ofLevels inner bound levels
  match ← accept .equal with
  | none => pure target
  | some equals =>
    let value ← inner
    match target with
    | .variable _ name => return .assign (← freshExpr) name value
    | .get object name => pure (.set object name value)
    | other =>
      report ⟨equals, .invalidAssignmentTarget⟩
      pure other

/-- An expression among at most `bound` tokens. -/
def expression : Nat → ParseM Expr
  | 0 => fail .expression
  | bound + 1 => assignment (expression bound) (bound + 1)

end Parse

end LoxLang
