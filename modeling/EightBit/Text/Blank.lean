/-!
# Blank characters

The characters with the property White_Space, and text without the blanks at its two ends.
-/

namespace EightBit.Text

/-- The code points with the property White_Space, as ranges with both ends included. -/
def blankRanges : List (Nat × Nat) :=
  [(0x0009, 0x000D), (0x0020, 0x0020), (0x0085, 0x0085), (0x00A0, 0x00A0), (0x1680, 0x1680),
   (0x2000, 0x200A), (0x2028, 0x2029), (0x202F, 0x202F), (0x205F, 0x205F), (0x3000, 0x3000)]

/-- Whether the character has the property White_Space. -/
def isBlank (c : Char) : Bool :=
  blankRanges.any fun range => range.1 ≤ c.toNat && c.toNat ≤ range.2

/-- The characters from the first to the last that is not blank. -/
def trim (chars : List Char) : List Char :=
  ((chars.dropWhile isBlank).reverse.dropWhile isBlank).reverse

example : ([' ', '\t', '\u00A0', '\u3000'].map isBlank) = [true, true, true, true] := by decide

/-- A zero-width space and a byte order mark take no room and are still not blank. -/
example : (['\u200B', '\uFEFF', '\x1F', '\x00'].map isBlank) = [false, false, false, false] := by
  decide

end EightBit.Text
