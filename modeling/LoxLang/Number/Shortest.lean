import LoxLang.Number.Binary

/-!
The shortest decimal that reads back as a given number.  Around a number lies the interval of
reals that round to it.  Of the decimal grids `10 ^ e` the coarsest with a point in that interval
fixes the count of digits, and of its points in the interval the nearest to the number fixes them.
-/

set_option autoImplicit false
set_option relaxedAutoImplicit false

namespace LoxLang.Number

/-- Which of two equally near decimals is taken. -/
inductive Tie where
  | up
  | even
  deriving DecidableEq

/-- The decimal `digits · 10 ^ exponent`. -/
structure Decimal where
  digits : Nat
  exponent : Int
  deriving DecidableEq

/-- The interval of reals that round to a positive number, in units of a common fraction.  The
number itself is `middle / unit`.  The ends belong to the interval when the significand is even. -/
structure Rounding where
  low : Nat
  middle : Nat
  high : Nat
  unit : Nat
  closed : Bool
  deriving DecidableEq

/-- The interval around `significand · 2 ^ exponent`: half a step to either side, and a quarter of
a step below a power of two, where the steps below are half as wide. -/
def Rounding.around (significand : Nat) (exponent : Int) : Rounding :=
  let below := if significand = leastNormal ∧ leastExponent < exponent then 1 else 2
  let (scale, unit) := magnitude 1 (exponent - 2)
  { low := (4 * significand - below) * scale
    middle := 4 * significand * scale
    high := (4 * significand + 2) * scale
    unit
    closed := significand % 2 == 0 }

def Rounding.onGrid (r : Rounding) (exponent : Int) : Rounding :=
  match exponent with
  | .ofNat e => { r with unit := r.unit * Nat.pow 10 e }
  | .negSucc e =>
    let scale := Nat.pow 10 (e + 1)
    { r with low := r.low * scale, middle := r.middle * scale, high := r.high * scale }

def Rounding.contains (r : Rounding) (n : Nat) : Bool :=
  if r.closed then r.low ≤ n * r.unit && n * r.unit ≤ r.high
  else r.low < n * r.unit && n * r.unit < r.high

def Rounding.nearest? (r : Rounding) (tie : Tie) : Option Nat :=
  let floor := r.middle / r.unit
  let ceiling := floor + 1
  let below := r.middle - floor * r.unit
  let above := ceiling * r.unit - r.middle
  match r.contains floor, r.contains ceiling with
  | false, false => none
  | true, false => some floor
  | false, true => some ceiling
  | true, true =>
    if below < above then some floor
    else if above < below then some ceiling
    else
      match tie with
      | .up => some ceiling
      | .even => some (if floor % 2 = 0 then floor else ceiling)

def Rounding.firstHit (r : Rounding) (tie : Tie) (exponent : Int) : Nat → Option Decimal
  | 0 => none
  | count + 1 =>
    match (r.onGrid exponent).nearest? tie with
    | some digits => some ⟨digits, exponent⟩
    | none => r.firstHit tie (exponent - 1) count

def digitCount (n : Nat) : Nat := (Nat.toDigits 10 n).length

/-- The exponent of the leading decimal digit of a positive fraction.  No number that a float
holds is below `10 ^ (-400)`. -/
def leadingExponent (numerator denominator : Nat) : Int :=
  (digitCount (numerator * Nat.pow 10 400 / denominator) : Int) - 401

def Decimal.dropZeros (d : Decimal) : Nat → Decimal
  | 0 => d
  | bound + 1 =>
    if d.digits ≠ 0 ∧ d.digits % 10 = 0 then
      Decimal.dropZeros ⟨d.digits / 10, d.exponent + 1⟩ bound
    else d

/-- The shortest decimal that reads back as `significand · 2 ^ exponent`.  Seventeen digits always
suffice. -/
def shortest (tie : Tie) (significand : Nat) (exponent : Int) : Decimal :=
  if significand = 0 then ⟨0, 0⟩
  else
    let r := Rounding.around significand exponent
    let (numerator, denominator) := magnitude significand exponent
    let top := leadingExponent numerator denominator
    match r.firstHit tie top 17 with
    | some d => d.dropZeros 17
    | none => ⟨0, 0⟩

end LoxLang.Number
