import LoxLang.Session

/-!
A workbench: a bare interpreter on which single steps are tried.  Programs may be executed without
being resolved, in scopes of one's choice, and the parts of values may be used one by one.
-/

set_option autoImplicit false
set_option relaxedAutoImplicit false

namespace LoxLang

/-- An interpreter, the numbers to hand out, and the scope of the last block. -/
structure Workbench where
  interpreter : Interpreter
  labels : Labels
  lastScope : Option Scope

/-- The scope in which a block is executed. -/
inductive BlockScope where
  /-- A new scope of its own. -/
  | fresh
  /-- The scope of the last block. -/
  | last
  /-- A new scope inside that of the last block. -/
  | child
  deriving DecidableEq

namespace Workbench

def initial (firstExpr : ExprId) : Workbench := ⟨.initial, ⟨firstExpr, 0⟩, none⟩

def readProgram (b : Workbench) (source : String) :
    Except (List StaticError) (List Stmt) × Workbench :=
  let scanned := scan source
  match scanned.faults with
  | [] =>
    let parsed := parseProgram b.labels scanned.tokens scanned.lastLine
    (parsed.result.mapError (·.map StaticError.syntactic), { b with labels := parsed.labels })
  | faults => (.error (faults.map StaticError.lexical), b)

def readExpression (b : Workbench) (source : String) : Except SessionError Expr × Workbench :=
  let read := LoxLang.readExpression b.labels source
  (read.result, { b with labels := read.labels })

def firstToken (source : String) : Token :=
  let scanned := scan source
  scanned.tokens.head?.getD (.atEnd scanned.lastLine)

def resolve (b : Workbench) (wanted : Bool) (program : List Stmt) :
    Option (List BindingError) × Workbench :=
  if wanted then
    let (errors, interpreter) := b.interpreter.resolve program
    (some errors, { b with interpreter })
  else (none, b)

def execute (config : Config) (b : Workbench) (program : List Stmt) :
    Except Failure Unit × Workbench :=
  let (result, interpreter) := b.interpreter.execute config program
  (result, { b with interpreter })

def blockScope (b : Workbench) (choice : BlockScope) : Scope × Workbench :=
  match choice, b.lastScope with
  | .last, some scope => (scope, b)
  | .child, some scope => enter (some scope)
  | _, _ => enter none
where
  /-- Adds a scope and remembers it. -/
  enter (enclosing : Option Scope) : Scope × Workbench :=
    let (scope, interpreter) := b.interpreter.newScope enclosing
    (scope, { b with interpreter, lastScope := some scope })

def executeBlock (config : Config) (b : Workbench) (choice : BlockScope) (program : List Stmt) :
    Except Interrupt Unit × Scope × Workbench :=
  let (scope, b) := b.blockScope choice
  let (result, interpreter) := b.interpreter.executeIn config scope program
  (result, scope, { b with interpreter })

def evaluate (config : Config) (b : Workbench) (e : Expr) : Except Failure Value × Workbench :=
  let (result, interpreter) := b.interpreter.evaluate config e
  (result, { b with interpreter })

def call (config : Config) (b : Workbench) (c : Callable) (args : List Value) :
    Except Failure Value × Workbench :=
  let (result, interpreter) := b.interpreter.call config c args
  (result, { b with interpreter })

end Workbench

end LoxLang
