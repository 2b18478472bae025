import LoxLang.CommandLine.Help
import LoxLang.Directory
import LoxLang.Session
import LoxLang.Text.Lines
import LoxLang.Tree.Printer

/-!
The command-line program: what each task writes, and the status with which it ends.
-/

set_option autoImplicit false
set_option relaxedAutoImplicit false

namespace LoxLang

/-- What a task has written, and its status. -/
structure Report where
  code : Nat
  out : String
  err : String
  deriving DecidableEq

def okCode : Nat := 0

def otherCode : Nat := 1

def usageCode : Nat := 2

def staticErrorCode : Nat := 65

def runtimeErrorCode : Nat := 70

def Diagnostic.code (d : Diagnostic) : Nat :=
  if d.isStatic then staticErrorCode else runtimeErrorCode

def asLine (s : String) : String := s ++ "\n"

def causedBy (context cause : String) : String :=
  "Error: " ++ context ++ "\n\nCaused by:\n    " ++ cause ++ "\n"

def Report.ofDiagnostic (out : String) (d : Diagnostic) : Report := ⟨d.code, out, asLine d.message⟩

def reportTokens (interchange : Bool) (source : String) : Report :=
  let items := Scan.items source
  let shown := items.filterMap Except.toOption
  let faults := (scan source).faults
  { code := if faults.isEmpty then okCode else staticErrorCode
    out := String.join <| shown.map fun t =>
      asLine (if interchange then t.interchange else t.listing)
    err := String.join (faults.map fun e => asLine e.diagnostic.message) }

def reportTree (source : String) : Report :=
  match (readExpression ⟨0, 0⟩ source).result with
  | .ok e => ⟨okCode, asLine e.bracketed, ""⟩
  | .error e => .ofDiagnostic "" e.diagnostic

def reportValue (config : Config) (source : String) : Report :=
  let (result, s) := Session.initial.evaluate config source
  let printed := s.interpreter.machine.printedAfter 0
  match result with
  | .ok v => ⟨okCode, printed ++ asLine v.text, ""⟩
  | .error e => .ofDiagnostic printed e.diagnostic

def reportRun (config : Config) (source : String) : Report :=
  let (result, s) := Session.initial.run config source
  let printed := s.interpreter.machine.printedAfter 0
  match result with
  | .ok () => ⟨okCode, printed, ""⟩
  | .error e => .ofDiagnostic printed e.diagnostic

/-- Does a task with the text of a file. -/
def FileTask.report (config : Config) (source : String) : FileTask → Report
  | .tokenize interchange => reportTokens interchange source
  | .parse => reportTree source
  | .evaluate => reportValue config source
  | .run => reportRun config source

def FileTask.reportOn (config : Config) (file : String)
    (bytes : Except ReadFault (List UInt8)) (task : FileTask) : Report :=
  let name := Text.inspected file
  match bytes with
  | .error (.cannotOpen cause) => ⟨otherCode, "", causedBy ("Failed to open file " ++ name) cause⟩
  | .error (.cannotRead cause) => ⟨otherCode, "", causedBy ("Failed to read file " ++ name) cause⟩
  | .ok bytes =>
    match Text.decodeUtf8 bytes with
    | .error fault => ⟨otherCode, "", causedBy (name ++ " is not valid UTF-8") fault.message⟩
    | .ok source => task.report config source

def promptMark : String := "> "

def leaveCommand : String := "exit()"

/-- What the prompt does with a line: it ends with a report, or goes on with what it has written
and a session whose flags are cleared. -/
inductive PromptStep where
  | ends (report : Report)
  | goesOn (out err : String) (s : Session)

def unreadableInput : Report :=
  ⟨otherCode, "", causedBy "Failed to read from stdin" "stream did not contain valid UTF-8"⟩

def promptStep (config : Config) (s : Session) (line : List UInt8) : PromptStep :=
  match Text.decodeUtf8 line with
  | .error _ => .ends unreadableInput
  | .ok source =>
    if String.ofList (Text.trimBlanks source.toList) = leaveCommand then .ends ⟨okCode, "", ""⟩
    else
      let (result, s') := s.run config source
      let printed := s'.interpreter.machine.printedAfter s.interpreter.machine.printed.size
      let err :=
        match result with
        | .ok () => ""
        | .error e => asLine e.diagnostic.message
      .goesOn printed err s'.resetErrors

def reportPrompt (config : Config) (s : Session) : List (List UInt8) → Report
  | [] => ⟨okCode, asLine promptMark, ""⟩
  | line :: rest =>
    match promptStep config s line with
    | .ends r => { r with out := promptMark ++ r.out }
    | .goesOn out err s =>
      let r := reportPrompt config s rest
      ⟨r.code, promptMark ++ out ++ r.out, err ++ r.err⟩

/-- What the whole program leaves behind. -/
structure Outcome where
  report : Report
  /-- Whether a file for the log is there afterwards. -/
  log : Bool

def runProgram (config : Config) (args : List String) (d : Directory) (input : List UInt8) :
    Outcome :=
  let present := d.files.any (·.1 == logFileName)
  match Invocation.ofArgs? args with
  | none => ⟨⟨usageCode, "", ""⟩, present⟩
  | some invocation =>
    let report :=
      match invocation.task with
      | .onFile task file => task.reportOn config file (d.read input file)
      | .prompt => reportPrompt config .initial (Text.lines input)
      | .help topic => ⟨okCode, topic.text, ""⟩
      | .version => ⟨okCode, versionText, ""⟩
    ⟨report, present || invocation.log⟩

end LoxLang
