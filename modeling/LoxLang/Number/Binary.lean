/-!
The exact value of a binary floating-point number.  A finite number is a sign, a natural
significand and a power of two; all texts of numbers are computed from these in exact arithmetic.
-/

set_option autoImplicit false
set_option relaxedAutoImplicit false

namespace LoxLang.Number

/-- A number taken apart. -/
inductive Binary where
  | nan
  | infinite (negative : Bool)
  /-- The number `± significand · 2 ^ exponent`. -/
  | finite (negative : Bool) (significand : Nat) (exponent : Int)
  deriving DecidableEq

def leastNormal : Nat := Nat.pow 2 52

def leastExponent : Int := -1074

/-- Takes a number apart along the fields of its encoding: one bit of sign, eleven of exponent and
fifty-two of significand, whose leading one is implicit unless the exponent field is zero. -/
def Binary.ofFloat (x : Float) : Binary :=
  let bits := x.toBits.toNat
  let negative := bits / Nat.pow 2 63 == 1
  let field := bits / Nat.pow 2 52 % Nat.pow 2 11
  let fraction := bits % Nat.pow 2 52
  if field = Nat.pow 2 11 - 1 then
    if fraction = 0 then .infinite negative else .nan
  else if field = 0 then .finite negative fraction leastExponent
  else .finite negative (leastNormal + fraction) (leastExponent + (field - 1 : Nat))

def magnitude (significand : Nat) (exponent : Int) : Nat × Nat :=
  match exponent with
  | .ofNat e => (significand * Nat.pow 2 e, 1)
  | .negSucc e => (significand, Nat.pow 2 (e + 1))

def wholeMagnitude? (significand : Nat) (exponent : Int) : Option Nat :=
  let (numerator, denominator) := magnitude significand exponent
  if numerator % denominator = 0 then some (numerator / denominator) else none

end LoxLang.Number
