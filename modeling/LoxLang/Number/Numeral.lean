import LoxLang.Text.Blank

/-!
Numerals and their values.  A numeral is a sign, digits with an optional point, and an optional
exponent, or one of the words for an infinity and for the absence of a number.  Its value is the
nearest number.  Of an exponent far outside the range of numbers only the first digits count.
-/

set_option autoImplicit false
set_option relaxedAutoImplicit false

namespace LoxLang.Number

def digitValue (c : Char) : Nat := c.toNat - '0'.toNat

def natOfDigits (digits : List Char) : Nat := digits.foldl (fun n c => 10 * n + digitValue c) 0

def exponentLimit : Nat := 65536

/-- The size of an exponent.  Digits behind the one with which it reaches `exponentLimit` are read,
but do not count. -/
def exponentOfDigits (digits : List Char) : Nat :=
  digits.foldl (fun n c => if n < exponentLimit then 10 * n + digitValue c else n) 0

/-- How many digits of a decimal count one by one.  A decimal halfway between two neighbouring
numbers has fewer, so of the digits behind these it only matters whether all are zero. -/
def maxDigits : Nat := 800

/-- Digits cut down to those that matter: without leading zeros, and with a one in place of all
that stand behind `maxDigits` digits unless these are zero.  With them comes how many places were
cut off. -/
def cutDigits (digits : List Char) : List Char × Nat :=
  let significant := digits.dropWhile (· = '0')
  let kept := significant.take maxDigits
  let behind := significant.drop maxDigits
  if behind.all (· = '0') then (kept, behind.length) else (kept ++ ['1'], behind.length - 1)

/-- The number nearest to `digits · 10 ^ exponent`.  A decimal whose leading digit stands far
outside the range of numbers is an infinity or zero. -/
def nearestNumber (digits : Nat) (exponent : Int) : Float :=
  let leading := exponent + ((Nat.toDigits 10 digits).length : Int)
  if digits = 0 ∨ leading < -400 then 0.0
  else if 400 < leading then 1.0 / 0.0
  else
    match exponent with
    | .ofNat e => Float.ofScientific digits false e
    | .negSucc e => Float.ofScientific digits true (e + 1)

def decimalValue (whole fraction : List Char) (exponent : Int) : Float :=
  let (digits, cut) := cutDigits (whole ++ fraction)
  nearestNumber (natOfDigits digits) (exponent - fraction.length + cut)

def splitSign : List Char → Bool × List Char
  | '-' :: cs => (true, cs)
  | '+' :: cs => (false, cs)
  | cs => (false, cs)

def splitDigits (cs : List Char) : List Char × List Char × List Char :=
  let whole := cs.takeWhile Char.isDigit
  match cs.dropWhile Char.isDigit with
  | '.' :: rest => (whole, rest.takeWhile Char.isDigit, rest.dropWhile Char.isDigit)
  | rest => (whole, [], rest)

/-- Splits off an exponent: a mark, a sign and digits.  Without a mark the exponent is zero; a mark
needs digits. -/
def splitExponent? : List Char → Option (Int × List Char)
  | [] => some (0, [])
  | mark :: cs =>
    if mark = 'e' ∨ mark = 'E' then
      let (negative, rest) := splitSign cs
      let digits := rest.takeWhile Char.isDigit
      let size : Int := exponentOfDigits digits
      if digits.isEmpty then none
      else some (if negative then -size else size, rest.dropWhile Char.isDigit)
    else some (0, mark :: cs)

def splitWord? : List Char → List Char → Option (List Char)
  | [], cs => some cs
  | _ :: _, [] => none
  | w :: word, c :: cs => if c.toLower = w then splitWord? word cs else none

def numeralWords : List (String × Float) :=
  [("infinity", 1.0 / 0.0), ("inf", 1.0 / 0.0), ("nan", 0.0 / 0.0)]

def splitNumeralWord? (cs : List Char) : Option (Float × List Char) :=
  numeralWords.findSome? fun (word, x) => (splitWord? word.toList cs).map (x, ·)

def splitUnsigned? (cs : List Char) : Option (Float × List Char) :=
  match splitNumeralWord? cs with
  | some found => some found
  | none =>
    let (whole, fraction, rest) := splitDigits cs
    if whole.isEmpty && fraction.isEmpty then none
    else
      (splitExponent? rest).map fun (exponent, rest) =>
        (decimalValue whole fraction exponent, rest)

def readNumeral? (cs : List Char) : Option Float :=
  let (negative, cs) := splitSign (cs.dropWhile Text.isBlank)
  match splitUnsigned? cs with
  | some (x, rest) => if rest.all Text.isBlank then some (if negative then -x else x) else none
  | none => none

end LoxLang.Number
