/-!
Blank characters, the members of the Unicode property White_Space, and the trimming of texts by
them.  Numerals written inside string values and the commands of the interactive prompt may be
surrounded by any of these.
-/

set_option autoImplicit false
set_option relaxedAutoImplicit false

namespace LoxLang.Text

def blankRanges : List (Nat × Nat) :=
  [(0x09, 0x0D), (0x20, 0x20), (0x85, 0x85), (0xA0, 0xA0), (0x1680, 0x1680), (0x2000, 0x200A),
    (0x2028, 0x2029), (0x202F, 0x202F), (0x205F, 0x205F), (0x3000, 0x3000)]

def isBlank (c : Char) : Bool :=
  blankRanges.any fun (low, high) => low ≤ c.toNat && c.toNat ≤ high

def trimBlanks (cs : List Char) : List Char :=
  ((cs.dropWhile isBlank).reverse.dropWhile isBlank).reverse

end LoxLang.Text
