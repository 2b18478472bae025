import LoxLang.Diagnostic
import LoxLang.Interpreter
import LoxLang.Parse

/-!
A session: texts are run or evaluated one after the other on one interpreter.  A text with anything
wrong in it is refused before it is executed.  Two flags tell whether a text was refused and whether
an execution failed since they were last cleared.
-/

set_option autoImplicit false
set_option relaxedAutoImplicit false

namespace LoxLang

/-- What can be wrong with a text before it is executed. -/
inductive StaticError where
  | lexical (e : LexError)
  | syntactic (e : SyntaxError)
  | binding (e : BindingError)
  deriving DecidableEq

def BindingError.diagnostic (e : BindingError) : Diagnostic :=
  .binding e.token.line e.token.place e.fault.message

def StaticError.diagnostic : StaticError → Diagnostic
  | .lexical e => e.diagnostic
  | .syntactic e => e.diagnostic
  | .binding e => e.diagnostic

def Failure.diagnostic : Failure → Diagnostic
  | .fault e => .runtime e.line e.fault.message
  | .sink text => .device text
  | .exhausted => .device "too many nested steps"

/-- Why a text was not run or evaluated to its end. -/
inductive SessionError where
  /-- All that is wrong with the text. -/
  | rejected (errors : List StaticError)
  /-- The one thing told about a text that is no single expression. -/
  | malformed (e : SyntaxError)
  | failed (f : Failure)
  deriving DecidableEq

def SessionError.diagnostic : SessionError → Diagnostic
  | .rejected errors => .rejected (errors.map StaticError.diagnostic)
  | .malformed e => e.diagnostic
  | .failed f => f.diagnostic

/-- Reads a text as a program.  It is parsed even if there are faulty pieces in it, and what is
wrong with both is told together. -/
def readProgram (labels : Labels) (source : String) : Parsed (List StaticError) (List Stmt) :=
  let scanned := scan source
  let parsed := parseProgram labels scanned.tokens scanned.lastLine
  let lexical := scanned.faults.map StaticError.lexical
  { labels := parsed.labels
    result :=
      match lexical, parsed.result with
      | [], .ok program => .ok program
      | _, .ok _ => .error lexical
      | _, .error errors => .error (lexical ++ errors.map StaticError.syntactic) }

/-- Reads a text as one expression.  A text with faulty pieces is not parsed. -/
def readExpression (labels : Labels) (source : String) : Parsed SessionError Expr :=
  let scanned := scan source
  match scanned.faults with
  | [] =>
    let parsed := parseExpression labels scanned.tokens scanned.lastLine
    ⟨parsed.labels, parsed.result.mapError .malformed⟩
  | faults => ⟨labels, .error (.rejected (faults.map StaticError.lexical))⟩

/-- A session between two texts. -/
structure Session where
  interpreter : Interpreter
  labels : Labels
  hadError : Bool
  hadRuntimeError : Bool

namespace Session

/-- A session in which nothing has happened. -/
def initial : Session := ⟨.initial, ⟨0, 0⟩, false, false⟩

def resetErrors (s : Session) : Session := { s with hadError := false, hadRuntimeError := false }

def refusing (s : Session) : Session := { s with hadError := true }

def after {α : Type} (s : Session) (i : Interpreter) (result : Except Failure α) : Session :=
  { s with
    interpreter := i
    hadRuntimeError := s.hadRuntimeError || !result.isOk }

/-- Runs a text as a program. -/
def run (config : Config) (s : Session) (source : String) : Except SessionError Unit × Session :=
  let read := readProgram s.labels source
  let s := { s with labels := read.labels }
  match read.result with
  | .error errors => (.error (.rejected errors), s.refusing)
  | .ok program =>
    let (errors, i) := s.interpreter.resolve program
    let s := { s with interpreter := i }
    match errors with
    | [] =>
      let (result, i) := Interpreter.execute config i program
      (result.mapError .failed, s.after i result)
    | errors => (.error (.rejected (errors.map StaticError.binding)), s.refusing)

/-- Evaluates a text as one expression, whose names are all taken for global ones. -/
def evaluate (config : Config) (s : Session) (source : String) :
    Except SessionError Value × Session :=
  let read := readExpression s.labels source
  let s := { s with labels := read.labels }
  match read.result with
  | .error e => (.error e, s.refusing)
  | .ok e =>
    let (result, i) := s.interpreter.evaluate config e
    (result.mapError .failed, s.after i result)

end Session

end LoxLang
