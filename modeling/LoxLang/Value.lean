import LoxLang.Scope
import LoxLang.Tree

/-!
Values.  Numbers, strings, booleans and `nil` are equal when they look equal; functions, classes
and objects have an identity of their own.  A class holds the chain of its superclasses, which is
fixed when the class is declared.
-/

set_option autoImplicit false
set_option relaxedAutoImplicit false

namespace LoxLang

/-- The functions that every program finds defined. -/
inductive Native where
  | clock
  deriving DecidableEq

def Native.name : Native → String
  | .clock => "clock"

def Native.arity : Native → Nat
  | .clock => 0

/-- A function value: its declaration, the scope in which that was executed, and whether it sets up
new objects. -/
structure Closure where
  decl : FunctionDecl
  scope : Scope
  isInitializer : Bool

def Closure.arity (c : Closure) : Nat := c.decl.params.length

def Closure.name (c : Closure) : String := c.decl.name.lexeme

def Closure.same (a b : Closure) : Bool :=
  a.decl.site == b.decl.site && a.scope.frame == b.scope.frame

/-- The identity of a class. -/
abbrev ClassId := Nat

/-- What one class declaration contributes: its name and its methods, in order. -/
structure ClassBody where
  id : ClassId
  name : String
  methods : List Closure

def ClassBody.method? (b : ClassBody) (name : String) : Option Closure :=
  b.methods.reverse.find? (·.name == name)

/-- A class value: its own body and those of its superclasses, nearest first. -/
structure Class where
  own : ClassBody
  ancestors : List ClassBody

namespace Class

/-- The bodies of a class, nearest first. -/
def chain (c : Class) : List ClassBody := c.own :: c.ancestors

def name (c : Class) : String := c.own.name

def method? (c : Class) (name : String) : Option Closure := c.chain.findSome? (·.method? name)

/-- The class with a new body below a superclass, if any. -/
def below (own : ClassBody) : Option Class → Class
  | none => ⟨own, []⟩
  | some superclass => ⟨own, superclass.chain⟩

end Class

/-- The name of the method that sets up a new object. -/
def initializerName : String := "init"

def Class.arity (c : Class) : Nat :=
  match c.method? initializerName with
  | some initializer => initializer.arity
  | none => 0

/-- The address of the fields of an object. -/
abbrev ObjectId := Nat

/-- An object: its identity and its class. -/
structure Object where
  id : ObjectId
  kind : Class

/-- What can be called. -/
inductive Callable where
  | native (f : Native)
  | function (c : Closure)
  | ofClass (c : Class)

def Callable.arity : Callable → Nat
  | .native f => f.arity
  | .function c => c.arity
  | .ofClass c => c.arity

/-- A value. -/
inductive Value where
  | nil
  | bool (b : Bool)
  | number (x : Float)
  | string (s : String)
  | callable (c : Callable)
  | object (o : Object)

/-- The types of values. -/
inductive ValueType where
  | nil
  | boolean
  | number
  | string
  | function
  | ofClass
  | object
  deriving DecidableEq

def ValueType.name : ValueType → String
  | .nil => "nil"
  | .boolean => "boolean"
  | .number => "number"
  | .string => "string"
  | .function => "function"
  | .ofClass => "class"
  | .object => "instance"

namespace Value

def type : Value → ValueType
  | nil => .nil
  | bool _ => .boolean
  | number _ => .number
  | string _ => .string
  | callable (.native _) | callable (.function _) => .function
  | callable (.ofClass _) => .ofClass
  | object _ => .object

/-- Only `nil` and `false` count as false. -/
def truthy : Value → Bool
  | nil | bool false => false
  | _ => true

def number? : Value → Option Float
  | number x => some x
  | string s => Number.readNumeral? s.toList
  | _ => none

def same : Value → Value → Bool
  | nil, nil => true
  | bool a, bool b => a == b
  | number x, number y => x == y
  | string s, string t => s == t
  | callable (.native f), callable (.native g) => f = g
  | callable (.function a), callable (.function b) => a.same b
  | callable (.ofClass a), callable (.ofClass b) => a.own.id == b.own.id
  | object a, object b => a.id == b.id
  | _, _ => false

def text : Value → String
  | nil => "nil"
  | bool b => if b then "true" else "false"
  | number x => Number.printed x
  | string s => s
  | callable (.native _) => "<native fn>"
  | callable (.function c) => "<fn " ++ c.name ++ ">"
  | callable (.ofClass c) => c.name
  | object o => o.kind.name ++ " instance"

def inspection? : Value → Option String
  | callable (.native f) => some ("NativeFunction(<native fn " ++ f.name ++ ">)")
  | callable (.function c) => some ("Function(<fn " ++ c.name ++ ">)")
  | callable (.ofClass c) => some ("Class(<class " ++ c.name ++ ">)")
  | object o => some ("Instance(<instance of " ++ o.kind.name ++ ">)")
  | _ => none

end Value

def Literal.value : Literal → Value
  | .number x => .number x
  | .string s => .string s
  | .bool b => .bool b
  | .nil => .nil

end LoxLang
