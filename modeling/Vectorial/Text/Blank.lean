/-!
# Blank characters

## Main definitions

* `Text.isBlank`: the Unicode property White_Space;
* `Text.trim`: a text without the blanks at its two ends.
-/

namespace Vectorial.Text

/-- Closed ranges of the code points with the property White_Space, ascending and
apart. -/
def blankRanges : List (Nat × Nat) :=
  [(0x09, 0x0D), (0x20, 0x20), (0x85, 0x85), (0xA0, 0xA0), (0x1680, 0x1680),
   (0x2000, 0x200A), (0x2028, 0x2029), (0x202F, 0x202F), (0x205F, 0x205F), (0x3000, 0x3000)]

/-- Whether a character is white space. -/
def isBlank (c : Char) : Bool :=
  blankRanges.any fun range => range.1 ≤ c.toNat && c.toNat ≤ range.2

/-- The text without its leading and trailing blanks. -/
def trim (text : List Char) : List Char :=
  ((text.dropWhile isBlank).reverse.dropWhile isBlank).reverse

end Vectorial.Text
