import LoxLang.Tree

/-!
Expressions as fully bracketed text, each operator in front of its operands.
-/

set_option autoImplicit false
set_option relaxedAutoImplicit false

namespace LoxLang

def Literal.bracketed : Literal → String
  | .number x => Number.pointed x
  | .string s => s
  | .bool b => if b then "true" else "false"
  | .nil => "nil"

def bracket (head : String) (parts : List String) : String :=
  "(" ++ String.intercalate " " (head :: parts) ++ ")"

mutual

def Expr.bracketed : Expr → String
  | .literal value => value.bracketed
  | .grouping inner => bracket "group" [inner.bracketed]
  | .unary operator operand => bracket operator.lexeme [operand.bracketed]
  | .binary operator left right | .logical operator left right =>
    bracket operator.lexeme [left.bracketed, right.bracketed]
  | .variable _ name => name.lexeme
  | .assign _ name value => bracket "=" [name.lexeme, value.bracketed]
  | .call callee _ arguments => bracket "call" (callee.bracketed :: Expr.bracketedAll arguments)
  | .get object name => bracket "." [object.bracketed, name.lexeme]
  | .set object name value => bracket ".=" [object.bracketed, name.lexeme, value.bracketed]
  | .this _ _ => "this"
  | .super _ _ method => bracket "super" [method.lexeme]

def Expr.bracketedAll : List Expr → List String
  | [] => []
  | e :: es => e.bracketed :: Expr.bracketedAll es

end

end LoxLang
