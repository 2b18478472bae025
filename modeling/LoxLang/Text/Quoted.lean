import LoxLang.Text.Unprintable

/-!
Texts between double quotes.  The interchange format escapes the quote, the backslash and the
control characters, and nothing else.  For inspection all characters are escaped that would not be
seen.
-/

set_option autoImplicit false
set_option relaxedAutoImplicit false

namespace LoxLang.Text

def hexDigits (width n : Nat) : List Char :=
  let digits := Nat.toDigits 16 n
  List.replicate (width - digits.length) '0' ++ digits

def interchangeChar (c : Char) : List Char :=
  if c = '\x22' then ['\\', '\x22']
  else if c = '\\' then ['\\', '\\']
  else if c = '\x08' then ['\\', 'b']
  else if c = '\x0c' then ['\\', 'f']
  else if c = '\n' then ['\\', 'n']
  else if c = '\r' then ['\\', 'r']
  else if c = '\t' then ['\\', 't']
  else if c.toNat < 0x20 then '\\' :: 'u' :: hexDigits 4 c.toNat
  else [c]

def interchangeQuoted (s : String) : String :=
  String.ofList ('\x22' :: s.toList.flatMap interchangeChar ++ ['\x22'])

def inspectedChar (c : Char) : List Char :=
  if c = '\x22' then ['\\', '\x22']
  else if c = '\\' then ['\\', '\\']
  else if c = '\n' then ['\\', 'n']
  else if c = '\r' then ['\\', 'r']
  else if c = '\t' then ['\\', 't']
  else if c = '\x00' then ['\\', '0']
  else if isUnprintable c then '\\' :: 'u' :: '{' :: hexDigits 1 c.toNat ++ ['}']
  else [c]

def inspected (s : String) : String :=
  String.ofList ('\x22' :: s.toList.flatMap inspectedChar ++ ['\x22'])

end LoxLang.Text
