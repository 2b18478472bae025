import LoxLang.Proofs.Mirror

/-!
A new name for one local variable.  A variable that is not global is told by the scope in which it
is declared and by its name there; scopes are told by the way that leads to them in the tree.  The
variable gets its new name where it is declared and in those expressions that the resolver binds to
it: those with its name that stand as far inside of its scope as their distance tells.
-/

set_option autoImplicit false
set_option relaxedAutoImplicit false

namespace LoxLang

/-! Names and variables in trees. -/

mutual

def Expr.names : Expr → List String
  | .literal _ | .this _ _ | .super _ _ _ => []
  | .grouping inner => inner.names
  | .unary _ operand => operand.names
  | .binary _ left right | .logical _ left right => left.names ++ right.names
  | .variable _ name => [name.lexeme]
  | .assign _ name value => name.lexeme :: value.names
  | .call callee _ args => callee.names ++ Expr.namesAll args
  | .get object _ => object.names
  | .set object _ value => object.names ++ value.names

def Expr.namesAll : List Expr → List String
  | [] => []
  | e :: es => e.names ++ Expr.namesAll es

end

def Expr.namesOption : Option Expr → List String
  | none => []
  | some e => e.names

mutual

def Stmt.names : Stmt → List String
  | .expression e | .print e => e.names
  | .var name initializer => name.lexeme :: Expr.namesOption initializer
  | .block body => Stmt.namesAll body
  | .branch condition thenBranch elseBranch =>
    condition.names ++ (thenBranch.names ++ Stmt.namesOption elseBranch)
  | .loop condition body => condition.names ++ body.names
  | .function decl => decl.name.lexeme :: decl.names
  | .ret _ value => Expr.namesOption value
  | .classDecl name superclass methods =>
    name.lexeme :: (Expr.namesOption superclass ++ FunctionDecl.namesAll methods)

def Stmt.namesOption : Option Stmt → List String
  | none => []
  | some s => s.names

def Stmt.namesAll : List Stmt → List String
  | [] => []
  | s :: ss => s.names ++ Stmt.namesAll ss

def FunctionDecl.names : FunctionDecl → List String
  | .mk _ _ params body => params.map Token.lexeme ++ Stmt.namesAll body

def FunctionDecl.namesAll : List FunctionDecl → List String
  | [] => []
  | decl :: decls => decl.names ++ FunctionDecl.namesAll decls

end

mutual

def Stmt.variables : Stmt → List Token
  | .var name _ => [name]
  | .branch _ thenBranch elseBranch => thenBranch.variables ++ Stmt.variablesOption elseBranch
  | .loop _ body => body.variables
  | .function _ | .classDecl _ _ _ | .expression _ | .print _ | .block _ | .ret _ _ => []

def Stmt.variablesOption : Option Stmt → List Token
  | none => []
  | some s => s.variables

end

/-- A way to a place in a tree: the indices of the branches on it, the last one first. -/
abbrev Path := List Nat

/-- A scope other than the global one: the way that leads to it, its parameters if it is that of a
function, and the statements in it. -/
structure LocalScope where
  path : Path
  params : List Token
  body : List Stmt

def LocalScope.variables (q : LocalScope) : List Token := q.params ++ q.body.flatMap Stmt.variables

mutual

def Stmt.scopes : Path → Stmt → List LocalScope
  | path, .block body => ⟨path, [], body⟩ :: Stmt.scopesAll path 0 body
  | path, .branch _ thenBranch elseBranch =>
    thenBranch.scopes (0 :: path) ++ Stmt.scopesOption (1 :: path) elseBranch
  | path, .loop _ body => body.scopes path
  | path, .function decl => decl.scopes path
  | path, .classDecl _ _ methods => FunctionDecl.scopesAll path 0 methods
  | _, .expression _ | _, .print _ | _, .var _ _ | _, .ret _ _ => []

def Stmt.scopesOption : Path → Option Stmt → List LocalScope
  | _, none => []
  | path, some s => s.scopes path

def Stmt.scopesAll : Path → Nat → List Stmt → List LocalScope
  | _, _, [] => []
  | path, i, s :: ss => s.scopes (i :: path) ++ Stmt.scopesAll path (i + 1) ss

def FunctionDecl.scopes : Path → FunctionDecl → List LocalScope
  | path, .mk _ _ params body => ⟨path, params, body⟩ :: Stmt.scopesAll path 0 body

def FunctionDecl.scopesAll : Path → Nat → List FunctionDecl → List LocalScope
  | _, _, [] => []
  | path, i, decl :: decls => decl.scopes (i :: path) ++ FunctionDecl.scopesAll path (i + 1) decls

end

/-- The scopes of a program, but for the global one. -/
def programScopes (program : List Stmt) : List LocalScope := Stmt.scopesAll [] 0 program

/-! Giving the name. -/

/-- A new name for a variable: the way to its scope, its name, and the new one. -/
structure NewName where
  scope : Path
  old : String
  new : String

/-- The scopes around a place, the global one included, innermost first.  The scope of a variable
in question is marked. -/
abbrev Marks := List Bool

def Marks.at (Γ : Marks) : Option Nat → Bool
  | none => false
  | some d => Γ[d]?.getD false

section

variable (N : NewName)

def Marks.enter (path : Path) (Γ : Marks) : Marks := decide (path = N.scope) :: Γ

/-- The new name, if the one at hand is that of a variable in the marked scope. -/
def NewName.give (marked : Bool) (name : Token) : Token :=
  if marked ∧ name.lexeme = N.old then name.rename N.new else name

section

variable (D : Distances) (Γ : Marks)

mutual

def Expr.renameLocal : Expr → Expr
  | .literal v => .literal v
  | .grouping inner => .grouping inner.renameLocal
  | .unary operator operand => .unary operator operand.renameLocal
  | .binary operator left right => .binary operator left.renameLocal right.renameLocal
  | .logical operator left right => .logical operator left.renameLocal right.renameLocal
  | .variable id name => .variable id (N.give (Γ.at D[id]?) name)
  | .assign id name value => .assign id (N.give (Γ.at D[id]?) name) value.renameLocal
  | .call callee paren args => .call callee.renameLocal paren (Expr.renameLocalAll args)
  | .get object name => .get object.renameLocal name
  | .set object name value => .set object.renameLocal name value.renameLocal
  | .this id keyword => .this id keyword
  | .super id keyword method => .super id keyword method

def Expr.renameLocalAll : List Expr → List Expr
  | [] => []
  | e :: es => e.renameLocal :: Expr.renameLocalAll es

end

end

variable (D : Distances)

mutual

def Stmt.renameLocal : Marks → Path → Stmt → Stmt
  | Γ, _, .expression e => .expression (e.renameLocal N D Γ)
  | Γ, _, .print e => .print (e.renameLocal N D Γ)
  | Γ, _, .var name initializer =>
    .var (N.give (Γ.at (some 0)) name) (initializer.map (Expr.renameLocal N D Γ))
  | Γ, path, .block body => .block (Stmt.renameLocalAll (Γ.enter N path) path 0 body)
  | Γ, path, .branch condition thenBranch elseBranch =>
    .branch (condition.renameLocal N D Γ) (thenBranch.renameLocal Γ (0 :: path))
      (Stmt.renameLocalOption Γ (1 :: path) elseBranch)
  | Γ, path, .loop condition body =>
    .loop (condition.renameLocal N D Γ) (body.renameLocal Γ path)
  | Γ, path, .function decl => .function (decl.renameLocal Γ path)
  | Γ, _, .ret keyword value => .ret keyword (value.map (Expr.renameLocal N D Γ))
  | Γ, path, .classDecl name none methods =>
    .classDecl name none (FunctionDecl.renameLocalAll (false :: Γ) path 0 methods)
  | Γ, path, .classDecl name (some e) methods =>
    .classDecl name (some (e.renameLocal N D Γ))
      (FunctionDecl.renameLocalAll (false :: false :: Γ) path 0 methods)

def Stmt.renameLocalOption : Marks → Path → Option Stmt → Option Stmt
  | _, _, none => none
  | Γ, path, some s => some (s.renameLocal Γ path)

def Stmt.renameLocalAll : Marks → Path → Nat → List Stmt → List Stmt
  | _, _, _, [] => []
  | Γ, path, i, s :: ss => s.renameLocal Γ (i :: path) :: Stmt.renameLocalAll Γ path (i + 1) ss

def FunctionDecl.renameLocal : Marks → Path → FunctionDecl → FunctionDecl
  | Γ, path, .mk site name params body =>
    .mk site name (params.map (N.give ((Γ.enter N path).at (some 0))))
      (Stmt.renameLocalAll (Γ.enter N path) path 0 body)

def FunctionDecl.renameLocalAll : Marks → Path → Nat → List FunctionDecl → List FunctionDecl
  | _, _, _, [] => []
  | Γ, path, i, decl :: decls =>
    decl.renameLocal Γ (i :: path) :: FunctionDecl.renameLocalAll Γ path (i + 1) decls

end

def renameLocal (program : List Stmt) : List Stmt :=
  Stmt.renameLocalAll N D [false] [] 0 program

end

end LoxLang
