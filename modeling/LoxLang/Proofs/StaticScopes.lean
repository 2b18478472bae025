import LoxLang.Resolve
import LoxLang.Proofs.Numbering

/-!
The scopes that the resolver walks through, told as a function of the tree alone.  Each scope knows
what its frames come from when the program runs.  The walk over a tree gives notes in order: which
expressions are met within which scopes, and what is wrong; and a statement leaves the scopes around
it with the names that it declared.
-/

set_option autoImplicit false
set_option relaxedAutoImplicit false

namespace LoxLang

/-- What a frame comes from: an execution of a block, a call of a function, the binding of a method
to an object, or an execution of the declaration of a derived class. -/
inductive Origin where
  | block (body : List Stmt)
  | call (decl : FunctionDecl)
  | receiver (method : FunctionDecl)
  | superclass (name : Token) (methods : List FunctionDecl)

/-- Whether the frames of an origin are those in which a text is executed. -/
def Origin.isText : Origin → Bool
  | block _ | call _ => true
  | receiver _ | superclass _ _ => false

/-- The statements that are executed in a frame. -/
def Origin.body : Origin → List Stmt
  | block body => body
  | call decl => decl.body
  | receiver _ | superclass _ _ => []

/-- A scope around a place in the text: what its frames come from, and the names declared in it so
far; those whose declaration is complete are marked. -/
structure StaticFrame where
  origin : Origin
  names : StaticScope

/-- The scopes around a place in the text, innermost first, without the global one. -/
abbrev StaticStack := List StaticFrame

/-- The number and the name by which an expression refers to a variable. -/
def Expr.reference? : Expr → Option (ExprId × Token)
  | .variable id name | .assign id name _ | .this id name | .super id name _ => some (id, name)
  | _ => none

/-- A note of the walk. -/
inductive Note where
  /-- An expression that refers to a variable is met inside some scopes. -/
  | met (e : Expr) (around : StaticStack)
  | fault (e : BindingError)

namespace StaticStack

/-- Marks a name in the innermost scope. -/
def mark (name : String) (complete : Bool) : StaticStack → StaticStack
  | [] => []
  | σ :: Γ => { σ with names := σ.names.insert name complete } :: Γ

/-- Whether the innermost scope has a name already. -/
def has (Γ : StaticStack) (name : String) : Bool := Γ.head?.any (·.names.contains name)

/-- Begins the declaration of a name, unless the innermost scope has it already. -/
def declare (name : Token) (Γ : StaticStack) : StaticStack :=
  if Γ.has name.lexeme then Γ else Γ.mark name.lexeme false

def define (name : Token) (Γ : StaticStack) : StaticStack := Γ.mark name.lexeme true

/-- Declares a name that can be used at once. -/
def introduce (name : Token) (Γ : StaticStack) : StaticStack := (Γ.declare name).define name

def introduceAll : List Token → StaticStack → StaticStack
  | [], Γ => Γ
  | name :: names, Γ => introduceAll names (Γ.introduce name)

/-- How many scopes out a name is found. -/
def distance? (Γ : StaticStack) (name : String) : Option Nat := Γ.findIdx? (·.names.contains name)

/-- The scopes inside of the frame for a call. -/
def calling (decl : FunctionDecl) (Γ : StaticStack) : StaticStack :=
  introduceAll decl.params (⟨.call decl, ∅⟩ :: Γ)

/-- The scopes inside of the frame for the object of a method. -/
def receiving (method : FunctionDecl) (Γ : StaticStack) : StaticStack :=
  ⟨.receiver method, (∅ : StaticScope).insert "this" true⟩ :: Γ

/-- The scopes inside of the frame for the superclass of a class. -/
def inheriting (name : Token) (methods : List FunctionDecl) (Γ : StaticStack) : StaticStack :=
  ⟨.superclass name methods, (∅ : StaticScope).insert "super" true⟩ :: Γ

end StaticStack

namespace Walk

/-- What is noted at the declaration of a name. -/
def declared (Γ : StaticStack) (name : Token) : List Note :=
  if Γ.has name.lexeme then [.fault ⟨name, .redeclared⟩] else []

def declaredAll : List Token → StaticStack → List Note
  | [], _ => []
  | name :: names, Γ => declared Γ name ++ declaredAll names (Γ.introduce name)

/-- What is noted at the reading of a name. -/
def read (Γ : StaticStack) (name : Token) : List Note :=
  if Γ.head?.any (·.names[name.lexeme]? = some false) then [.fault ⟨name, .readInInitializer⟩]
  else []

mutual

/-- What is noted at an expression within a class. -/
def expr (enclosing : ClassContext) (Γ : StaticStack) : Expr → List Note
  | .literal _ => []
  | .grouping inner => expr enclosing Γ inner
  | .unary _ operand => expr enclosing Γ operand
  | .binary _ left right | .logical _ left right => expr enclosing Γ left ++ expr enclosing Γ right
  | .variable id name => read Γ name ++ [.met (.variable id name) Γ]
  | .assign id name value => expr enclosing Γ value ++ [.met (.assign id name value) Γ]
  | .call callee _ arguments => expr enclosing Γ callee ++ exprs enclosing Γ arguments
  | .get object _ => expr enclosing Γ object
  | .set object _ value => expr enclosing Γ value ++ expr enclosing Γ object
  | .this id keyword =>
    match enclosing with
    | .outside => [.fault ⟨keyword, .thisOutsideClass⟩]
    | .plain | .derived => [.met (.this id keyword) Γ]
  | .super id keyword method =>
    (match enclosing with
    | .outside => [.fault ⟨keyword, .superOutsideClass⟩]
    | .plain => [.fault ⟨keyword, .superWithoutSuperclass⟩]
    | .derived => []) ++ [.met (.super id keyword method) Γ]

def exprs (enclosing : ClassContext) (Γ : StaticStack) : List Expr → List Note
  | [] => []
  | e :: es => expr enclosing Γ e ++ exprs enclosing Γ es

end

def expr? (enclosing : ClassContext) (Γ : StaticStack) : Option Expr → List Note
  | none => []
  | some e => expr enclosing Γ e

/-- What is noted at a `return` itself. -/
def returned (context : FunctionContext) (keyword : Token) (hasValue : Bool) : List Note :=
  (if context = .outside then [.fault ⟨keyword, .returnOutsideFunction⟩] else []) ++
    if hasValue && context = .initializer then [.fault ⟨keyword, .returnFromInitializer⟩] else []

/-- What is noted at a class that names itself as its superclass. -/
def inherited (name : Token) (superclass : Expr) : List Note :=
  match superclass.variableName? with
  | some superName =>
    if superName.lexeme = name.lexeme then [.fault ⟨superName, .inheritsFromItself⟩] else []
  | none => []

mutual

/-- The scopes behind a statement. -/
def after (Γ : StaticStack) : Stmt → StaticStack
  | .var name _ => (Γ.declare name).define name
  | .function decl => Γ.introduce decl.name
  | .classDecl name _ _ => Γ.introduce name
  | .branch _ thenBranch elseBranch => after? (after Γ thenBranch) elseBranch
  | .loop _ body => after Γ body
  | _ => Γ

def after? (Γ : StaticStack) : Option Stmt → StaticStack
  | none => Γ
  | some s => after Γ s

end

def afterAll (Γ : StaticStack) : List Stmt → StaticStack
  | [] => Γ
  | s :: ss => afterAll (after Γ s) ss

mutual

/-- What is noted at a statement. -/
def stmt (context : BindingContext) (Γ : StaticStack) : Stmt → List Note
  | .expression e | .print e => expr context.enclosing Γ e
  | .var name initializer =>
    declared Γ name ++ expr? context.enclosing (Γ.declare name) initializer
  | .block body => stmts context (⟨.block body, ∅⟩ :: Γ) body
  | .branch condition thenBranch elseBranch =>
    expr context.enclosing Γ condition ++ stmt context Γ thenBranch ++
      stmt? context (after Γ thenBranch) elseBranch
  | .loop condition body => expr context.enclosing Γ condition ++ stmt context Γ body
  | .function decl =>
    declared Γ decl.name ++ function context.enclosing .function (Γ.introduce decl.name) decl
  | .ret keyword value =>
    returned context.function keyword value.isSome ++ expr? context.enclosing Γ value
  | .classDecl name none methods =>
    declared Γ name ++ functions .plain (Γ.introduce name) methods
  | .classDecl name (some e) methods =>
    declared Γ name ++ inherited name e ++ expr .derived (Γ.introduce name) e ++
      functions .derived ((Γ.introduce name).inheriting name methods) methods

def stmt? (context : BindingContext) (Γ : StaticStack) : Option Stmt → List Note
  | none => []
  | some s => stmt context Γ s

def stmts (context : BindingContext) (Γ : StaticStack) : List Stmt → List Note
  | [] => []
  | s :: ss => stmt context Γ s ++ stmts context (after Γ s) ss

/-- What is noted at the parameters and the body of a function. -/
def function (enclosing : ClassContext) (context : FunctionContext) (Γ : StaticStack) :
    FunctionDecl → List Note
  | .mk site name params body =>
    let decl := .mk site name params body
    declaredAll params (⟨.call decl, ∅⟩ :: Γ) ++ stmts ⟨context, enclosing⟩ (Γ.calling decl) body

def functions (enclosing : ClassContext) (Γ : StaticStack) : List FunctionDecl → List Note
  | [] => []
  | .mk site name params body :: decls =>
    let decl := .mk site name params body
    function enclosing (methodContext name.lexeme) (Γ.receiving decl) (.mk site name params body) ++
      functions enclosing Γ decls

end

/-- What is noted at a program. -/
def program (ss : List Stmt) : List Note := stmts .top [] ss

end Walk

def Note.fault? : Note → Option BindingError
  | .met _ _ => none
  | .fault e => some e

/-- The number of the expression of a note, and how far out its name is found. -/
def Note.binding? : Note → Option (ExprId × Nat)
  | .met e Γ => do
    let (id, name) ← e.reference?
    return (id, ← Γ.distance? name.lexeme)
  | .fault _ => none

/-- Distances to which those of some notes are added. -/
def Distances.record (D : Distances) (notes : List Note) : Distances :=
  (notes.filterMap Note.binding?).foldl (fun D (id, d) => D.insert id d) D

end LoxLang
