import LoxLang.Value

/-!
What can go wrong while a program is executed.
-/

set_option autoImplicit false
set_option relaxedAutoImplicit false

namespace LoxLang

/-- Why execution stops. -/
inductive RuntimeFault where
  /-- No frame of the searched scope holds the name. -/
  | unbound (name : String)
  /-- The frame at the recorded distance does not hold the name. -/
  | unboundLocal (name : String)
  | operandNotNumber
  | operandsNotNumbers
  | operandsNotAddable
  | notCallable (type : ValueType)
  | wrongArity (expected given : Nat)
  | stackOverflow
  | noProperties
  | noFields
  | undefinedProperty (name : String)
  /-- A class is declared below a value that is no class. -/
  | superclassNotClass
  /-- A `super` without a recorded distance. -/
  | superUnresolved
  /-- A `super` whose frame does not hold a class. -/
  | superNotClass
  /-- A `super` without an object inside its frame. -/
  | superWithoutObject
  | invalidUnary
  | invalidBinary
  deriving DecidableEq

/-- The wording of a fault. -/
def RuntimeFault.message : RuntimeFault → String
  | .unbound name | .unboundLocal name => "Undefined variable '" ++ name ++ "'."
  | .operandNotNumber => "Operand must be a number."
  | .operandsNotNumbers => "Operand must be numbers."
  | .operandsNotAddable => "Operands must be two numbers or two strings."
  | .notCallable type => "Can only call functions and classes, not " ++ type.name ++ "."
  | .wrongArity expected given =>
    "Expected " ++ toString expected ++ " arguments but got " ++ toString given ++ "."
  | .stackOverflow => "Stack overflow."
  | .noProperties => "Only instances have properties."
  | .noFields => "Only instances have fields."
  | .undefinedProperty name => "Undefined property '" ++ name ++ "'."
  | .superclassNotClass | .superNotClass => "Superclass must be a class."
  | .superUnresolved => "Can't use 'super' outside of a class."
  | .superWithoutObject => "Can't use 'super' outside of a method."
  | .invalidUnary => "Invalid unary operator."
  | .invalidBinary => "Invalid binary operator."

/-- A fault and the line of the token at which it shows. -/
structure RuntimeError where
  line : Nat
  fault : RuntimeFault
  deriving DecidableEq

/-- Why an execution failed. -/
inductive Failure where
  | fault (e : RuntimeError)
  /-- The sink refused a line, in its own words. -/
  | sink (text : String)
  /-- The bound on nested steps was reached. -/
  | exhausted
  deriving DecidableEq

end LoxLang
