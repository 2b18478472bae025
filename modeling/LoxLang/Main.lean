import LoxLang.Program
import Std.Time.DateTime.Timestamp

/-!
The outer layer of the command-line program: it reads files and input, writes what the program
reports, and ends with its status.
-/

set_option autoImplicit false
set_option relaxedAutoImplicit false

namespace LoxLang.Main

/-- The world outside of a program that starts now.  Each reading of the clock is a millisecond
after the one before. -/
def currentConfig : IO Config := do
  let now ← Std.Time.Timestamp.now
  let start := now.toMillisecondsSinceUnixEpoch.val
  pure
    { callLimit := some maxCallDepth
      sink := .working
      clock := fun reading => Float.ofInt (start + reading) / 1000.0
      bound := ampleBound }

def numberOf : IO.Error → Option UInt32
  | .noFileOrDirectory _ code _ => some code
  | .inappropriateType _ code _ => some code
  | .invalidArgument _ code _ => some code
  | _ => none

def causeOf (e : IO.Error) : String :=
  let known : List (UInt32 × SystemFault) :=
    [(2, .notFound), (20, .notDirectory), (21, .isDirectory), (36, .nameTooLong)]
  match (numberOf e).bind fun code => known.lookup code with
  | some fault => fault.message
  | none => toString e

def readFile (file : String) : IO (Except ReadFault (List UInt8)) := do
  match ← (IO.FS.Handle.mk file .read).toBaseIO with
  | .error e => pure (.error (.cannotOpen (causeOf e)))
  | .ok handle =>
    match ← handle.readBinToEnd.toBaseIO with
    | .error e => pure (.error (.cannotRead (causeOf e)))
    | .ok bytes => pure (.ok bytes.toList)

def finish (report : Report) : IO UInt32 := do
  (← IO.getStdout).putStr report.out
  (← IO.getStdout).flush
  (← IO.getStderr).putStr report.err
  pure (UInt32.ofNat report.code)

/-- Reads up to the next line feed or the end, where `begun` holds the bytes read so far, last one
first. -/
partial def readLine (input : IO.FS.Stream) (begun : List UInt8) : IO (List UInt8) := do
  match (← input.read 1).toList with
  | [] => pure begun.reverse
  | b :: _ => if b = 0x0A then pure (b :: begun).reverse else readLine input (b :: begun)

/-- Answers lines until the input ends. -/
partial def prompt (config : Config) (s : Session) : IO UInt32 := do
  let output ← IO.getStdout
  output.putStr promptMark
  output.flush
  match Text.lines (← readLine (← IO.getStdin) []) with
  | [] => finish ⟨okCode, "\n", ""⟩
  | line :: _ =>
    match promptStep config s line with
    | .ends report => finish report
    | .goesOn out err s =>
      output.putStr out
      (← IO.getStderr).putStr err
      prompt config s

def run (args : List String) : IO UInt32 := do
  match Invocation.ofArgs? args with
  | none => finish ⟨usageCode, "", "error: the command line is refused\n"⟩
  | some invocation =>
    if invocation.log then IO.FS.writeFile logFileName ""
    let config ← currentConfig
    match invocation.task with
    | .onFile task file => finish (task.reportOn config file (← readFile file))
    | .prompt => prompt config .initial
    | .help topic => finish ⟨okCode, topic.text, ""⟩
    | .version => finish ⟨okCode, versionText, ""⟩

end LoxLang.Main

def main (args : List String) : IO UInt32 := LoxLang.Main.run args
