import LoxLang.Token

/-!
From a text to its tokens.  A text is cut into pieces from left to right, each as long as it can
be; a piece is a token, a stretch that is skipped, or a fault.  The pieces tile the text: each
takes its first character and a number of those that follow, and the next begins behind it.
-/

set_option autoImplicit false
set_option relaxedAutoImplicit false

namespace LoxLang

/-- What is wrong with a piece of text. -/
inductive LexFault where
  | unexpectedCharacter (c : Char)
  | unterminatedString
  deriving DecidableEq

def LexFault.message : LexFault → String
  | .unexpectedCharacter c => "Unexpected character: " ++ String.singleton c
  | .unterminatedString => "Unterminated string."

/-- A faulty piece of text and the line on which it ends. -/
structure LexError where
  fault : LexFault
  line : Nat
  deriving DecidableEq

namespace Scan

/-- What a piece of text is. -/
inductive Piece where
  /-- A blank or a comment. -/
  | skipped
  | token (kind : Kind)
  /-- A word, whose kind depends on its letters. -/
  | word
  | faulty (fault : LexFault)
  deriving DecidableEq

def isWordStart (c : Char) : Bool := c.isAlpha || c == '_'

def isWordPart (c : Char) : Bool := isWordStart c || c.isDigit

def run (test : Char → Bool) (cs : List Char) : Nat := (cs.takeWhile test).length

private theorem run_le (test : Char → Bool) (cs : List Char) : run test cs ≤ cs.length :=
  (List.takeWhile_sublist _).length_le

/-- How far a number reaches behind its first digit: further digits, and a point with at least one
digit behind it. -/
def numberRun (cs : List Char) : Nat :=
  let whole := run Char.isDigit cs
  match cs.drop whole with
  | '.' :: fraction =>
    let places := run Char.isDigit fraction
    if 0 < places then whole + 1 + places else whole
  | _ => whole

private theorem numberRun_le (cs : List Char) : numberRun cs ≤ cs.length := by
  have whole := run_le Char.isDigit cs
  unfold numberRun
  simp only
  split
  · rename_i fraction h
    have places := run_le Char.isDigit fraction
    have rest := congrArg List.length h
    simp only [List.length_drop, List.length_cons] at rest
    split <;> omega
  · exact whole

def oneOrTwo (cs : List Char) (single double : Kind) : Piece × Nat :=
  if cs.head? = some '=' then (.token double, 1) else (.token single, 0)

/-- The piece that begins with the character `c` before the characters `cs`, and how many of
these belong to it. -/
def munch (c : Char) (cs : List Char) : Piece × Nat :=
  match c with
  | '(' => (.token .leftParen, 0)
  | ')' => (.token .rightParen, 0)
  | '{' => (.token .leftBrace, 0)
  | '}' => (.token .rightBrace, 0)
  | ',' => (.token .comma, 0)
  | '.' => (.token .dot, 0)
  | '-' => (.token .minus, 0)
  | '+' => (.token .plus, 0)
  | ';' => (.token .semicolon, 0)
  | '*' => (.token .star, 0)
  | '!' => oneOrTwo cs .bang .bangEqual
  | '=' => oneOrTwo cs .equal .equalEqual
  | '<' => oneOrTwo cs .less .lessEqual
  | '>' => oneOrTwo cs .greater .greaterEqual
  | ' ' | '\r' | '\t' | '\n' => (.skipped, 0)
  | '/' => if cs.head? = some '/' then (.skipped, run (· ≠ '\n') cs) else (.token .slash, 0)
  | '\x22' =>
    let inside := run (· ≠ '\x22') cs
    if inside < cs.length then (.token .string, inside + 1)
    else (.faulty .unterminatedString, cs.length)
  | _ =>
    if c.isDigit then (.token .number, numberRun cs)
    else if isWordStart c then (.word, run isWordPart cs)
    else (.faulty (.unexpectedCharacter c), 0)

/-- A piece ends within its text. -/
theorem munch_extent_le (c : Char) (cs : List Char) : (munch c cs).2 ≤ cs.length := by
  have operator : ∀ single double, (oneOrTwo cs single double).2 ≤ cs.length := by
    intro single double
    unfold oneOrTwo
    cases cs with
    | nil => simp
    | cons d ds => split <;> simp
  unfold munch
  split <;> try simp [operator]
  · split
    · exact run_le _ _
    · simp
  · split
    · simp
      omega
    · simp
  · split
    · exact numberRun_le _
    · split
      · exact run_le _ _
      · simp

/-- An item of the stream: a token or a faulty piece. -/
abbrev Item := Except LexError Token

def Piece.item? (piece : Piece) (text : List Char) (line : Nat) : Option Item :=
  match piece with
  | .skipped => none
  | .token kind => some (.ok ⟨kind, String.ofList text, line⟩)
  | .word => some (.ok ⟨Kind.ofWord (String.ofList text), String.ofList text, line⟩)
  | .faulty fault => some (.error ⟨fault, line⟩)

def lineAfter (line : Nat) (text : List Char) : Nat := line + text.count '\n'

def itemsFrom (line : Nat) : Nat → List Char → List Item
  | bound + 1, c :: cs =>
    let (piece, extent) := munch c cs
    let text := c :: cs.take extent
    let line' := lineAfter line text
    (piece.item? text line').toList ++ itemsFrom line' bound (cs.drop extent)
  | _, _ => [.ok (.atEnd line)]

def items (source : String) : List Item := itemsFrom 1 source.length source.toList

end Scan

/-- What scanning a text gives: its tokens, the line of the mark behind them, and the faults. -/
structure Scanned where
  tokens : List Token
  lastLine : Nat
  faults : List LexError

/-- Scans a text, setting the tokens apart from the faults. -/
def scan (source : String) : Scanned :=
  let items := Scan.items source
  let marked := items.filterMap Except.toOption
  { tokens := marked.dropLast
    lastLine := (marked.getLast?.map Token.line).getD 1
    faults := items.filterMap fun
      | .ok _ => none
      | .error e => some e }

end LoxLang
