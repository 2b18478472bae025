import LoxLang.Proofs.Numbering
import LoxLang.Session

/-!
Sequences of operations on a session, and what they show: the lines that each one prints, its
answer, and the two flags behind it.
-/

set_option autoImplicit false
set_option relaxedAutoImplicit false

namespace LoxLang

section

variable (f : ExprId → ExprId) (g : SiteId → SiteId)

def Closure.renumber (c : Closure) : Closure := { c with decl := c.decl.renumber f g }

def ClassBody.renumber (b : ClassBody) : ClassBody :=
  { b with methods := b.methods.map (Closure.renumber f g) }

def Class.renumber (c : Class) : Class :=
  ⟨c.own.renumber f g, c.ancestors.map (ClassBody.renumber f g)⟩

def Callable.renumber : Callable → Callable
  | .native n => .native n
  | .function c => .function (c.renumber f g)
  | .ofClass c => .ofClass (c.renumber f g)

def Value.renumber : Value → Value
  | .callable c => .callable (c.renumber f g)
  | .object o => .object { o with kind := o.kind.renumber f g }
  | v => v

end

/-- What can be asked of a session. -/
inductive Operation where
  | run (source : String)
  | evaluate (source : String)
  | resetErrors

/-- An operation and what it is given from outside. -/
structure Request where
  config : Config
  operation : Operation

/-- What an operation answers. -/
inductive Answer where
  | ran (result : Except SessionError Unit)
  | evaluated (result : Except SessionError Value)
  | reset

def Answer.renumber (f : ExprId → ExprId) (g : SiteId → SiteId) : Answer → Answer
  | .evaluated (.ok v) => .evaluated (.ok (v.renumber f g))
  | answer => answer

/-- What an operation shows. -/
structure Observation where
  printed : List String
  answer : Answer
  hadError : Bool
  hadRuntimeError : Bool

def Observation.renumber (f : ExprId → ExprId) (g : SiteId → SiteId) (o : Observation) :
    Observation :=
  { o with answer := o.answer.renumber f g }

namespace Session

/-- Performs an operation. -/
def perform (s : Session) (r : Request) : Answer × Session :=
  match r.operation with
  | .run source =>
    let (result, s) := s.run r.config source
    (.ran result, s)
  | .evaluate source =>
    let (result, s) := s.evaluate r.config source
    (.evaluated result, s)
  | .resetErrors => (.reset, s.resetErrors)

def performAll (s : Session) : List Request → Session
  | [] => s
  | r :: rs => (s.perform r).2.performAll rs

def lines (s : Session) : List String := s.interpreter.machine.printed.toList

def shows (s : Session) (step : Answer × Session) : Observation where
  printed := step.2.lines.drop s.lines.length
  answer := step.1
  hadError := step.2.hadError
  hadRuntimeError := step.2.hadRuntimeError

/-- What a sequence of operations shows, step by step. -/
def observe (s : Session) : List Request → List Observation
  | [] => []
  | r :: rs => s.shows (s.perform r) :: (s.perform r).2.observe rs

def Reachable (s : Session) : Prop := ∃ history, s = initial.performAll history

end Session

end LoxLang
