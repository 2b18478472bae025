import LoxLang.Number.Shortest

/-!
The written forms of a number: positional digits and scientific notation, and the choice between
an exact whole number and the shortest decimal.
-/

set_option autoImplicit false
set_option relaxedAutoImplicit false

namespace LoxLang.Number

def digitsOf (n : Nat) : List Char := Nat.toDigits 10 n

def zeros (count : Nat) : List Char := List.replicate count '0'

/-- A decimal without an exponent: padded with zeros up to the point, and with a point only where
digits follow it. -/
def Decimal.positional (d : Decimal) : List Char :=
  let digits := digitsOf d.digits
  match d.exponent with
  | .ofNat e => digits ++ zeros e
  | .negSucc e =>
    let places := e + 1
    if places < digits.length then
      digits.take (digits.length - places) ++ '.' :: digits.drop (digits.length - places)
    else '0' :: '.' :: zeros (places - digits.length) ++ digits

def Decimal.magnitude (d : Decimal) : Int := d.exponent + (digitCount d.digits : Int) - 1

def Decimal.scientific (d : Decimal) : List Char :=
  let power := d.magnitude
  let mark := if power < 0 then ['e', '-'] else ['e', '+']
  let tail := mark ++ digitsOf power.natAbs
  match digitsOf d.digits with
  | [] => tail
  | [digit] => digit :: tail
  | digit :: digits => digit :: '.' :: digits ++ tail

def signed (negative : Bool) (digits : List Char) : List Char :=
  if negative then '-' :: digits else digits

/-- The text of a number: `whole` writes a number without fraction from its exact magnitude, any
other finite number is written as its shortest positional decimal. -/
def textWith (whole : Nat → List Char) (x : Float) : String :=
  match Binary.ofFloat x with
  | .nan => "NaN"
  | .infinite negative => String.ofList (signed negative ['i', 'n', 'f'])
  | .finite negative significand exponent =>
    String.ofList <| signed negative <|
      match wholeMagnitude? significand exponent with
      | some n => whole n
      | none => (shortest .up significand exponent).positional

def printed (x : Float) : String := textWith digitsOf x

/-- The text of a number as trees are printed: whole numbers end in a point and a zero. -/
def pointed (x : Float) : String := textWith (fun n => digitsOf n ++ ['.', '0']) x

/-- The text of a number as tokens are listed: whole numbers below `10 ^ 15` end in a point and a
zero, greater ones are their shortest digits padded with zeros. -/
def listed (x : Float) : String :=
  match Binary.ofFloat x with
  | .finite negative significand exponent =>
    match wholeMagnitude? significand exponent with
    | some n =>
      if n < Nat.pow 10 15 then pointed x
      else String.ofList (signed negative (shortest .up significand exponent).positional)
    | none => printed x
  | _ => printed x

/-- The text of a number in the interchange format: shortest digits, of two equally near decimals
the even one, positional with at least one digit behind the point for leading exponents from -5
to 15 and scientific beyond.  There is no text for an infinity or for the absence of a number. -/
def interchange (x : Float) : String :=
  match Binary.ofFloat x with
  | .nan | .infinite _ => "null"
  | .finite negative significand exponent =>
    let d := shortest .even significand exponent
    String.ofList <| signed negative <|
      if -5 ≤ d.magnitude ∧ d.magnitude ≤ 15 then
        if 0 ≤ d.exponent then d.positional ++ ['.', '0'] else d.positional
      else d.scientific

end LoxLang.Number
