import LoxLang.Text.Utf8

/-!
Cutting bytes into lines.  A line ends at a line feed, or before the carriage return in front of
one; what follows the last line feed is a line of its own if there is anything.
-/

set_option autoImplicit false
set_option relaxedAutoImplicit false

namespace LoxLang.Text

def dropReturn (line : List UInt8) : List UInt8 :=
  if line.getLast? = some 0x0D then line.dropLast else line

def linesFrom (begun : List UInt8) : List UInt8 → List (List UInt8)
  | [] => if begun.isEmpty then [] else [begun.reverse]
  | b :: bs =>
    if b = 0x0A then dropReturn begun.reverse :: linesFrom [] bs
    else linesFrom (b :: begun) bs

def lines (bytes : List UInt8) : List (List UInt8) := linesFrom [] bytes

end LoxLang.Text
