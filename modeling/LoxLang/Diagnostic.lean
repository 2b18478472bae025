import LoxLang.Parse.Basic
import LoxLang.Text.Utf8

/-!
Diagnostics as they are shown: the stage that produced one, the line and place it points at, and
its wording.  The stages have causes of their own, which become diagnostics when they are shown.
-/

set_option autoImplicit false
set_option relaxedAutoImplicit false

namespace LoxLang

/-- What a diagnostic points at. -/
inductive Place where
  | atEnd
  | atLexeme (lexeme : String)
  deriving DecidableEq

def Token.place (t : Token) : Place :=
  if t.kind = .endOfInput then .atEnd else .atLexeme t.lexeme

def Place.text : Place → String
  | .atEnd => " at end"
  | .atLexeme lexeme => " at '" ++ lexeme ++ "'"

/-- A diagnostic. -/
inductive Diagnostic where
  | lexical (line : Nat) (detail : String)
  | syntactic (line : Nat) (place : Place) (detail : String)
  | binding (line : Nat) (place : Place) (detail : String)
  | runtime (line : Nat) (detail : String)
  /-- All that was found wrong with one text before it could be executed. -/
  | rejected (members : List Diagnostic)
  /-- A failed input or output, in its own words. -/
  | device (text : String)
  | encoding (fault : Text.Utf8Fault)

def Diagnostic.isStatic : Diagnostic → Bool
  | .lexical .. | .syntactic .. | .binding .. | .rejected _ => true
  | .runtime .. | .device _ | .encoding _ => false

def lineMark (line : Nat) : String := "[line " ++ toString line ++ "] "

mutual

def Diagnostic.message : Diagnostic → String
  | .lexical line detail => lineMark line ++ "Error: " ++ detail
  | .syntactic line place detail | .binding line place detail =>
    lineMark line ++ "Error" ++ place.text ++ ": " ++ detail
  | .runtime line detail => lineMark line ++ "Runtime error: " ++ detail
  | .rejected members => String.intercalate "\n" (Diagnostic.messages members)
  | .device text => text
  | .encoding fault => fault.message

def Diagnostic.messages : List Diagnostic → List String
  | [] => []
  | d :: ds => d.message :: Diagnostic.messages ds

end

def LexError.diagnostic (e : LexError) : Diagnostic := .lexical e.line e.fault.message

def SyntaxError.diagnostic (e : SyntaxError) : Diagnostic :=
  .syntactic e.token.line e.token.place e.fault.message

end LoxLang
