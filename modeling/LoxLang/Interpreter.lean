import LoxLang.Eval

/-!
An interpreter: the state of its execution and the distances of the local names in all programs
that were resolved for it.  It executes programs and evaluates expressions one after the other, and
what one of them stored is there for the next.
-/

set_option autoImplicit false
set_option relaxedAutoImplicit false

namespace LoxLang

/-- An interpreter between two executions. -/
structure Interpreter where
  machine : Machine
  distances : Distances

namespace Interpreter

def initial : Interpreter := ⟨.initial, ∅⟩

def note (i : Interpreter) (id : ExprId) (distance : Nat) : Interpreter :=
  { i with distances := i.distances.insert id distance }

/-- Resolves a program.  The distances are recorded even if there are errors. -/
def resolve (i : Interpreter) (program : List Stmt) : List BindingError × Interpreter :=
  let resolved := LoxLang.resolve i.distances program
  (resolved.errors, { i with distances := resolved.distances })

def run {α : Type} (act : EvalM α) : Interpreter → Except Interrupt α × Interpreter
  | ⟨machine, distances⟩ =>
    let (result, machine) := (ExceptT.run act).run machine
    (result, ⟨machine, distances⟩)

/-- What the executions of an interpreter consult. -/
def surroundings (i : Interpreter) (config : Config) : Surroundings := ⟨config, i.distances⟩

/-- Goes back to the global scope. -/
def atGlobals (i : Interpreter) : Interpreter :=
  { i with machine := { i.machine with scope := .globals } }

/-- Executes statements one after the other up to the first failure, which leads back to the
global scope.  A `return` outside of all functions ends no more than its own statement. -/
def execute (config : Config) (i : Interpreter) : List Stmt → Except Failure Unit × Interpreter
  | [] => (.ok (), i)
  | s :: ss =>
    match i.run (execStmt (i.surroundings config) config.bound s) with
    | (.ok (), i) => execute config i ss
    | (.error (.returned _), i) => execute config i ss
    | (.error (.failure f), i) => (.error f, i.atGlobals)

def executeIn (config : Config) (i : Interpreter) (scope : Scope) (body : List Stmt) :
    Except Interrupt Unit × Interpreter :=
  i.run (EvalM.inScope scope (execStmts (i.surroundings config) config.bound body))

def valueOf : Except Interrupt Value → Except Failure Value
  | .ok v | .error (.returned v) => .ok v
  | .error (.failure f) => .error f

/-- Evaluates an expression. -/
def evaluate (config : Config) (i : Interpreter) (e : Expr) :
    Except Failure Value × Interpreter :=
  let (result, i) := i.run (evalExpr (i.surroundings config) config.bound e)
  (valueOf result, i)

/-- Calls a callable with arguments as they are, without counting the call. -/
def call (config : Config) (i : Interpreter) (c : Callable) (args : List Value) :
    Except Failure Value × Interpreter :=
  let (result, i) := i.run (applyCallable (i.surroundings config) config.bound c args)
  (valueOf result, i)

def property (i : Interpreter) (v : Value) (name : Token) : Except Failure Value × Interpreter :=
  let (result, i) := i.run (EvalM.getProperty v name)
  (valueOf result, i)

def setField (i : Interpreter) (o : Object) (name : String) (v : Value) : Interpreter :=
  (i.run (EvalM.setField o name v)).2

def newScope (i : Interpreter) (enclosing : Option Scope) : Scope × Interpreter :=
  let (scope, store) := i.machine.store.newScope ∅ enclosing
  (scope, { i with machine := { i.machine with store } })

end Interpreter

end LoxLang
