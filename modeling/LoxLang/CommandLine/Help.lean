import LoxLang.CommandLine

/-!
The texts that tell how the program is called, and its version.
-/

set_option autoImplicit false
set_option relaxedAutoImplicit false

namespace LoxLang

def programName : String := "rox"

def versionText : String := programName ++ " 0.1.0\n"

def Command.about : Command → String
  | .tokenize => "Tokenizes input from a file, printing each token"
  | .parse => "Parses input from a file as a single expression and prints its AST"
  | .evaluate => "Evaluates input from a file as a single expression and prints the result"
  | .run => "Runs input from a file as a Lox program"

def Switch.about : Switch → String
  | .interchange => "Print one JSON object per token"
  | .log => "Enable logging to " ++ logFileName

namespace CommandLine

def table (title : String) (rows : List (String × String)) : String :=
  let width := (rows.map (·.1.length)).foldl max 0
  let lines := rows.map fun (name, about) =>
    "  " ++ name.pushn ' ' (width - name.length) ++ "  " ++ about ++ "\n"
  "\n" ++ title ++ ":\n" ++ String.join lines

def switchRow (s : Switch) : String × String := ("    " ++ s.name, s.about)

def helpRow : String × String := ("-h, --help", "Print help")

def helpAbout : String := "Print this message or the help of the given subcommand(s)"

def programHelp : String :=
  "Lox language interpreter\n\nUsage: " ++ programName ++ " [OPTIONS] [SCRIPT]\n       " ++
    programName ++ " <COMMAND>\n" ++
    table "Commands" (Command.all.map (fun c => (c.name, c.about)) ++ [(helpCommand, helpAbout)]) ++
    table "Arguments"
      [("[SCRIPT]", "Script to run; starts an interactive prompt when omitted")] ++
    table "Options" [switchRow .log, helpRow, ("-V, --version", "Print version")]

def commandHelp (c : Command) : String :=
  c.about ++ "\n\nUsage: " ++ programName ++ " " ++ c.name ++ " [OPTIONS] <FILENAME>\n" ++
    table "Arguments" [("<FILENAME>", "")] ++
    table "Options" (c.switches.map switchRow ++ [helpRow])

def helpHelp : String :=
  helpAbout ++ "\n\nUsage: " ++ programName ++ " " ++ helpCommand ++ " [COMMAND]...\n" ++
    table "Arguments" [("[COMMAND]...", "Print help for the subcommand(s)")]

end CommandLine

def HelpTopic.text : HelpTopic → String
  | .program => CommandLine.programHelp
  | .command c => CommandLine.commandHelp c
  | .help => CommandLine.helpHelp

end LoxLang
