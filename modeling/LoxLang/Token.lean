import LoxLang.Number.Layout
import LoxLang.Number.Numeral
import LoxLang.Text.Quoted

/-!
Tokens: their kinds, the reserved words, the values of literals, and the two written forms in
which tokens are listed.
-/

set_option autoImplicit false
set_option relaxedAutoImplicit false

namespace LoxLang

/-- The kind of a token. -/
inductive Kind where
  | leftParen
  | rightParen
  | leftBrace
  | rightBrace
  | comma
  | dot
  | minus
  | plus
  | semicolon
  | slash
  | star
  | bang
  | bangEqual
  | equal
  | equalEqual
  | greater
  | greaterEqual
  | less
  | lessEqual
  | identifier
  | string
  | number
  | andWord
  | classWord
  | elseWord
  | falseWord
  | funWord
  | forWord
  | ifWord
  | nilWord
  | orWord
  | printWord
  | returnWord
  | superWord
  | thisWord
  | trueWord
  | varWord
  | whileWord
  /-- The mark that follows the last token of a text. -/
  | endOfInput
  deriving DecidableEq

def Kind.name : Kind → String
  | .leftParen => "LEFT_PAREN"
  | .rightParen => "RIGHT_PAREN"
  | .leftBrace => "LEFT_BRACE"
  | .rightBrace => "RIGHT_BRACE"
  | .comma => "COMMA"
  | .dot => "DOT"
  | .minus => "MINUS"
  | .plus => "PLUS"
  | .semicolon => "SEMICOLON"
  | .slash => "SLASH"
  | .star => "STAR"
  | .bang => "BANG"
  | .bangEqual => "BANG_EQUAL"
  | .equal => "EQUAL"
  | .equalEqual => "EQUAL_EQUAL"
  | .greater => "GREATER"
  | .greaterEqual => "GREATER_EQUAL"
  | .less => "LESS"
  | .lessEqual => "LESS_EQUAL"
  | .identifier => "IDENTIFIER"
  | .string => "STRING"
  | .number => "NUMBER"
  | .andWord => "AND"
  | .classWord => "CLASS"
  | .elseWord => "ELSE"
  | .falseWord => "FALSE"
  | .funWord => "FUN"
  | .forWord => "FOR"
  | .ifWord => "IF"
  | .nilWord => "NIL"
  | .orWord => "OR"
  | .printWord => "PRINT"
  | .returnWord => "RETURN"
  | .superWord => "SUPER"
  | .thisWord => "THIS"
  | .trueWord => "TRUE"
  | .varWord => "VAR"
  | .whileWord => "WHILE"
  | .endOfInput => "EOF"

def reservedWords : List (String × Kind) :=
  [("and", .andWord), ("class", .classWord), ("else", .elseWord), ("false", .falseWord),
    ("fun", .funWord), ("for", .forWord), ("if", .ifWord), ("nil", .nilWord), ("or", .orWord),
    ("print", .printWord), ("return", .returnWord), ("super", .superWord), ("this", .thisWord),
    ("true", .trueWord), ("var", .varWord), ("while", .whileWord)]

/-- The kind of a word: a reserved word has a kind of its own, any other is an identifier. -/
def Kind.ofWord (word : String) : Kind := (reservedWords.lookup word).getD .identifier

/-- A token: its kind, the piece of text it is, and the line on which that piece ends. -/
structure Token where
  kind : Kind
  lexeme : String
  line : Nat
  deriving DecidableEq

/-- The mark behind a text whose last line is `line`. -/
def Token.atEnd (line : Nat) : Token := ⟨.endOfInput, "", line⟩

def Token.numberValue (t : Token) : Float := (Number.readNumeral? t.lexeme.toList).getD 0.0

/-- The value of a string token: its lexeme without the quotes. -/
def Token.stringValue (t : Token) : String := String.ofList (t.lexeme.toList.drop 1).dropLast

def Token.literalText (t : Token) : String :=
  match t.kind with
  | .string => t.stringValue
  | .number => Number.listed t.numberValue
  | _ => "null"

def Token.listing (t : Token) : String :=
  t.kind.name ++ " " ++ t.lexeme ++ " " ++ t.literalText

def Token.interchangeKind (t : Token) : String :=
  match t.kind with
  | .string => "\x7b\"STRING\":" ++ Text.interchangeQuoted t.stringValue ++ "\x7d"
  | .number => "\x7b\"NUMBER\":" ++ Number.interchange t.numberValue ++ "\x7d"
  | kind => Text.interchangeQuoted kind.name

def Token.interchange (t : Token) : String :=
  "\x7b\"token_type\":" ++ t.interchangeKind ++ ",\"lexeme\":" ++ Text.interchangeQuoted t.lexeme ++
    ",\"line\":" ++ toString t.line ++ "\x7d"

end LoxLang
