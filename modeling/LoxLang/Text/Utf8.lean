/-!
Reading bytes as UTF-8.  A byte sequence that is no UTF-8 text is refused with the place of the
first faulty character and the number of bytes before the one that rules it out.
-/

set_option autoImplicit false
set_option relaxedAutoImplicit false

namespace LoxLang.Text

/-- Why bytes are no UTF-8 text. -/
inductive Utf8Fault where
  /-- The `length` bytes from `index` on begin no character. -/
  | malformed (index length : Nat)
  /-- The input ends inside the character that begins at `index`. -/
  | incomplete (index : Nat)
  deriving DecidableEq

def Utf8Fault.message : Utf8Fault → String
  | .malformed index length => s!"invalid utf-8 sequence of {length} bytes from index {index}"
  | .incomplete index => s!"incomplete utf-8 byte sequence from index {index}"

/-- A character whose last bytes are still owed. -/
structure PendingChar where
  /-- The index of the first byte. -/
  start : Nat
  /-- How many bytes were read. -/
  seen : Nat
  /-- How many bytes are owed, after the next one. -/
  owed : Nat
  /-- The least value of the next byte. -/
  low : Nat
  /-- The greatest value of the next byte. -/
  high : Nat
  /-- The bits read so far. -/
  bits : Nat

/-- What the first byte of a character announces: the character itself, more bytes, or nothing.
The narrowed ranges after E0, ED, F0 and F4 leave out overlong forms, surrogates and values above
10FFFF. -/
def PendingChar.ofLead (start byte : Nat) : Option PendingChar :=
  if 0xC2 ≤ byte ∧ byte ≤ 0xDF then some ⟨start, 1, 0, 0x80, 0xBF, byte - 0xC0⟩
  else if 0xE0 ≤ byte ∧ byte ≤ 0xEF then
    some ⟨start, 1, 1, if byte = 0xE0 then 0xA0 else 0x80, if byte = 0xED then 0x9F else 0xBF,
      byte - 0xE0⟩
  else if 0xF0 ≤ byte ∧ byte ≤ 0xF4 then
    some ⟨start, 1, 2, if byte = 0xF0 then 0x90 else 0x80, if byte = 0xF4 then 0x8F else 0xBF,
      byte - 0xF0⟩
  else none

/-- Reads bytes from `index` on, where `pending` is the character that they continue.  The
characters read so far are in `done`, last one first. -/
def decodeFrom (index : Nat) (pending : Option PendingChar) (done : List Char) :
    List UInt8 → Except Utf8Fault (List Char)
  | [] =>
    match pending with
    | none => .ok done.reverse
    | some p => .error (.incomplete p.start)
  | b :: bs =>
    match pending with
    | none =>
      if b < 0x80 then decodeFrom (index + 1) none (Char.ofNat b.toNat :: done) bs
      else
        match PendingChar.ofLead index b.toNat with
        | some p => decodeFrom (index + 1) (some p) done bs
        | none => .error (.malformed index 1)
    | some p =>
      if p.low ≤ b.toNat ∧ b.toNat ≤ p.high then
        let bits := p.bits * 64 + (b.toNat - 0x80)
        match p.owed with
        | 0 => decodeFrom (index + 1) none (Char.ofNat bits :: done) bs
        | owed + 1 =>
          let p := ⟨p.start, p.seen + 1, owed, 0x80, 0xBF, bits⟩
          decodeFrom (index + 1) (some p) done bs
      else .error (.malformed p.start p.seen)

def decodeUtf8 (bytes : List UInt8) : Except Utf8Fault String :=
  (decodeFrom 0 none [] bytes).map String.ofList

end LoxLang.Text
