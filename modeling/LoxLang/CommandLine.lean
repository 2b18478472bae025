/-!
The command line.  One of four commands may come first, each with the name of a file; without a
command there may be the name of a script, and without a script the interactive prompt is started.
A fifth command asks for help.

Arguments are read from left to right.  What is refused, and a request for help or for the version,
ends the reading, whatever follows.
-/

set_option autoImplicit false
set_option relaxedAutoImplicit false

namespace LoxLang

/-- What is to be done with a file. -/
inductive FileTask where
  /-- List the tokens, one on a line, as text or in the interchange format. -/
  | tokenize (interchange : Bool)
  /-- Print the tree of an expression. -/
  | parse
  /-- Print the value of an expression. -/
  | evaluate
  /-- Execute a program. -/
  | run
  deriving DecidableEq

/-- The commands for files. -/
inductive Command where
  | tokenize
  | parse
  | evaluate
  | run
  deriving DecidableEq

/-- What help is asked for. -/
inductive HelpTopic where
  | program
  | command (c : Command)
  /-- The command for help itself. -/
  | help
  deriving DecidableEq

/-- What is to be done. -/
inductive Task where
  | onFile (task : FileTask) (file : String)
  | prompt
  | help (topic : HelpTopic)
  | version
  deriving DecidableEq

/-- A task, and whether a log is kept. -/
structure Invocation where
  task : Task
  log : Bool
  deriving DecidableEq

def logFileName : String := "rox.log"

/-- The options that are on when they are set. -/
inductive Switch where
  | interchange
  | log
  deriving DecidableEq

def Switch.name : Switch → String
  | .interchange => "--json"
  | .log => "--log"

namespace Command

def all : List Command := [.tokenize, .parse, .evaluate, .run]

def name : Command → String
  | .tokenize => "tokenize"
  | .parse => "parse"
  | .evaluate => "evaluate"
  | .run => "run"

def ofName? (name : String) : Option Command := all.find? (·.name = name)

def switches : Command → List Switch
  | .tokenize => [.interchange, .log]
  | .parse | .evaluate | .run => [.log]

def task (set : List Switch) : Command → FileTask
  | .tokenize => .tokenize (set.contains .interchange)
  | .parse => .parse
  | .evaluate => .evaluate
  | .run => .run

end Command

def helpCommand : String := "help"

namespace CommandLine

/-- Why reading ends before the last argument. -/
inductive Stop where
  | refused
  | help
  | version
  deriving DecidableEq

/-- The options that may be set, and whether one may ask for the version. -/
structure Allowed where
  switches : List Switch
  version : Bool
  deriving DecidableEq

/-- What was read: the options that were set, and the name of a file. -/
structure Reading where
  set : List Switch
  file : Option String
  deriving DecidableEq

/-- How an option that is not set ends the reading.  Letters may be joined behind one hyphen, and
the first of them decides. -/
def stopAt (allowed : Allowed) (option : String) : Stop :=
  let onVersion := if allowed.version then Stop.version else .refused
  if option = "--help" then .help
  else if option = "--version" then onVersion
  else
    match option.toList with
    | '-' :: 'h' :: _ => .help
    | '-' :: 'V' :: _ => onVersion
    | _ => .refused

def readOption (allowed : Allowed) (done : Reading) (option : String) : Except Stop Reading :=
  match allowed.switches.find? (·.name = option) with
  | some switch =>
    if switch ∈ done.set then .error .refused else .ok { done with set := switch :: done.set }
  | none => .error (stopAt allowed option)

def readWord (done : Reading) (word : String) : Except Stop Reading :=
  if word = "" ∨ done.file.isSome then .error .refused else .ok { done with file := some word }

def isOption (arg : String) : Bool := arg.startsWith "-" && arg != "-"

def readArgs (allowed : Allowed) (done : Reading) : List String → Except Stop Reading
  | [] => .ok done
  | arg :: args =>
    if arg = "--" then args.foldlM readWord done
    else do
      let done ← if isOption arg then readOption allowed done arg else readWord done arg
      readArgs allowed done args

def conclude (topic : HelpTopic) (task : Reading → Option Task) :
    Except Stop Reading → Option Invocation
  | .ok done => (task done).map (⟨·, done.set.contains .log⟩)
  | .error .refused => none
  | .error .help => some ⟨.help topic, false⟩
  | .error .version => some ⟨.version, false⟩

def ofCommand? (c : Command) (args : List String) : Option Invocation :=
  conclude (.command c) (fun done => done.file.map (.onFile (c.task done.set) ·))
    (readArgs ⟨c.switches, false⟩ ⟨[], none⟩ args)

def ofScript? (args : List String) : Option Invocation :=
  conclude .program (fun done => some (done.file.elim .prompt (.onFile .run ·)))
    (readArgs ⟨[.log], true⟩ ⟨[], none⟩ args)

def ofHelp? : List String → Option Invocation
  | [] => some ⟨.help .program, false⟩
  | [name] =>
    if name = helpCommand then some ⟨.help .help, false⟩
    else (Command.ofName? name).map fun c => ⟨.help (.command c), false⟩
  | _ => none

end CommandLine

/-- Reads the arguments of a command line, or refuses them.  A command is one only as the first
argument. -/
def Invocation.ofArgs? (args : List String) : Option Invocation :=
  match args with
  | [] => CommandLine.ofScript? []
  | first :: rest =>
    if first = helpCommand then CommandLine.ofHelp? rest
    else
      match Command.ofName? first with
      | some c => CommandLine.ofCommand? c rest
      | none => CommandLine.ofScript? args

end LoxLang
