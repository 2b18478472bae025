import LoxLang.Fault
import LoxLang.Resolve
import LoxLang.Store

/-!
The state of an execution, the ways in which it can be cut short, and the steps that touch that
state.
-/

set_option autoImplicit false
set_option relaxedAutoImplicit false

namespace LoxLang

/-- Where printed lines go. -/
inductive Sink where
  | working
  /-- A sink that refuses every line, with its own words for the failure. -/
  | broken (text : String)
  deriving DecidableEq

/-- What an execution is given from outside. -/
structure Config where
  /-- How many calls may be active at a time; no limit if missing. -/
  callLimit : Option Nat
  sink : Sink
  /-- The readings of the clock, in order. -/
  clock : Nat → Float
  /-- How many steps may be nested. -/
  bound : Nat

def maxCallDepth : Nat := 1000

def ampleBound : Nat := Nat.pow 2 60

/-- The state of an execution. -/
structure Machine where
  store : Store
  /-- The scope of the statement being executed. -/
  scope : Scope
  /-- The count of active calls. -/
  depth : Nat
  /-- The lines printed so far. -/
  printed : Array String
  /-- How often the clock was read. -/
  readings : Nat

def Machine.initial : Machine :=
  let natives := (∅ : Bindings).insert Native.clock.name (.callable (.native .clock))
  { store := (Store.empty.newScope natives none).2
    scope := .globals
    depth := 0
    printed := #[]
    readings := 0 }

def Machine.printedAfter (m : Machine) (count : Nat) : String :=
  String.join ((m.printed.toList.drop count).map (· ++ "\n"))

/-- Why an execution is cut short. -/
inductive Interrupt where
  | failure (f : Failure)
  /-- A `return` on its way to the call that it ends. -/
  | returned (v : Value)

/-- An execution that gives a result or is cut short, and changes the state in both cases. -/
abbrev EvalM := ExceptT Interrupt (StateM Machine)

namespace EvalM

def fault {α : Type} (token : Token) (f : RuntimeFault) : EvalM α :=
  throw (.failure (.fault ⟨token.line, f⟩))

def ofResult {α : Type} (token : Token) : Except RuntimeFault α → EvalM α
  | .ok a => pure a
  | .error f => fault token f

def ofOption {α : Type} (token : Token) (f : RuntimeFault) : Option α → EvalM α
  | some a => pure a
  | none => fault token f

/-- What is stored. -/
def store : EvalM Store := return (← get).store

/-- Changes what is stored, and gives what the change yields. -/
def onStore {α : Type} (step : Store → α × Store) : EvalM α :=
  ExceptT.mk fun ⟨store, scope, depth, printed, readings⟩ =>
    let (a, store) := step store
    (.ok a, ⟨store, scope, depth, printed, readings⟩)

/-- Runs an execution in a scope, and goes back to the present one however it ends. -/
def inScope {α : Type} (scope : Scope) (act : EvalM α) : EvalM α :=
  ExceptT.mk fun m =>
    let present := m.scope
    let (result, m) := act.run { m with scope }
    (result, { m with scope := present })

/-- Runs an execution as one more active call, however it ends. -/
def asCall {α : Type} (act : EvalM α) : EvalM α :=
  ExceptT.mk fun m =>
    let (result, m) := act.run { m with depth := m.depth + 1 }
    (result, { m with depth := m.depth - 1 })

/-- Runs an execution that a `return` may end: its value, or nothing if the end is reached. -/
def catchReturn (act : EvalM Unit) : EvalM (Option Value) :=
  ExceptT.mk fun m =>
    match act.run m with
    | (.ok (), m) => (.ok none, m)
    | (.error (.returned v), m) => (.ok (some v), m)
    | (.error (.failure f), m) => (.error (.failure f), m)

def print (sink : Sink) (line : String) : EvalM Unit :=
  match sink with
  | .working => modify fun m => { m with printed := m.printed.push line }
  | .broken text => throw (.failure (.sink text))

/-- Defines a name in the innermost frame. -/
def define (name : String) (v : Value) : EvalM Unit :=
  modify fun m => { m with store := m.store.define m.scope name v }

/-- The value of the name of an expression: in the frame at its recorded distance, or among the
globals if it has none. -/
def lookUp (distances : Distances) (id : ExprId) (name : Token) : EvalM Value := do
  let m ← get
  match distances[id]? with
  | some distance =>
    ofOption name (.unboundLocal name.lexeme) (m.store.getAt? m.scope distance name.lexeme)
  | none => ofOption name (.unbound name.lexeme) (m.store.get? .globals name.lexeme)

def holder (distances : Distances) (id : ExprId) (name : Token) : EvalM FrameId := do
  let m ← get
  match distances[id]? with
  | some distance =>
    ofOption name (.unboundLocal name.lexeme) (m.store.holderAt? m.scope distance name.lexeme)
  | none => ofOption name (.unbound name.lexeme) (m.store.holder? .globals name.lexeme)

def assign (distances : Distances) (id : ExprId) (name : Token) (v : Value) : EvalM Unit := do
  let frame ← holder distances id name
  modify fun m => { m with store := m.store.setLocal frame name.lexeme v }

def bindMethod (method : Closure) (o : Object) : EvalM Value :=
  return .callable (.function (← onStore (·.bind method o)))

/-- A property of a value, which must be an object: a field, or else a method bound to it. -/
def getProperty (v : Value) (name : Token) : EvalM Value :=
  match v with
  | .object o => do
    match (← store).field? o name.lexeme with
    | some v => pure v
    | none =>
      let method ← ofOption name (.undefinedProperty name.lexeme) (o.kind.method? name.lexeme)
      bindMethod method o
  | _ => fault name .noProperties

/-- A value that must be an object with fields. -/
def expectObject (v : Value) (name : Token) : EvalM Object :=
  match v with
  | .object o => pure o
  | _ => fault name .noFields

def setField (o : Object) (name : String) (v : Value) : EvalM Unit :=
  modify fun m => { m with store := m.store.setField o name v }

/-- The method of a superclass bound to the object of the method around it.  The frame with that
object lies just inside the one that holds the superclass. -/
def superMethod (distances : Distances) (id : ExprId) (keyword method : Token) : EvalM Value := do
  let m ← get
  let distance ← ofOption keyword .superUnresolved distances[id]?
  match m.store.getAt? m.scope distance "super" with
  | some (.callable (.ofClass superclass)) =>
    let receiver :=
      match distance with
      | 0 => none
      | inner + 1 => m.store.getAt? m.scope inner "this"
    match receiver with
    | some (.object o) =>
      let found ← ofOption method (.undefinedProperty method.lexeme)
        (superclass.method? method.lexeme)
      bindMethod found o
    | _ => fault keyword .superWithoutObject
  | _ => fault keyword .superNotClass

/-- A value that is about to be called with some arguments; all that can go wrong before the call
is found here. -/
def expectCallable (limit : Option Nat) (v : Value) (given : Nat) (paren : Token) :
    EvalM Callable :=
  match v with
  | .callable c => do
    let m ← get
    if given ≠ c.arity then fault paren (.wrongArity c.arity given)
    else if limit.any (· ≤ m.depth) then fault paren .stackOverflow
    else pure c
  | v => fault paren (.notCallable v.type)

def readClock (clock : Nat → Float) : EvalM Value := do
  let m ← get
  set { m with readings := m.readings + 1 }
  pure (.number (clock m.readings))

/-- Declares a class in the present scope.  The methods of a derived class close over one more
frame, which holds the superclass. -/
def declareClass (name : Token) (superclass : Option Class) (methods : List FunctionDecl) :
    EvalM Unit := do
  let present := (← get).scope
  let scope ←
    match superclass with
    | none => pure present
    | some c =>
      let bindings := (∅ : Bindings).insert "super" (.callable (.ofClass c))
      onStore (·.newScope bindings (some present))
  let id ← onStore (·.newClass)
  let closures := methods.map fun decl =>
    Closure.mk decl scope (decl.name.lexeme = initializerName)
  define name.lexeme (.callable (.ofClass (.below ⟨id, name.lexeme, closures⟩ superclass)))

end EvalM

end LoxLang
