/-!
# Columns

A text in a column stands at its left edge and is filled with spaces on the right, a number stands
at the right edge and is filled on the left. A text that is wider than its column is not cut. Widths
count characters.
-/

namespace EightBit.Text

/-- The text at the left edge of a column. -/
def leftAligned (width : Nat) (s : String) : String :=
  String.ofList (s.toList.rightpad width ' ')

/-- The text at the right edge of a column. -/
def rightAligned (width : Nat) (s : String) : String :=
  String.ofList (s.toList.leftpad width ' ')

example : leftAligned 4 "ab" = "ab  " ∧ leftAligned 1 "ab" = "ab" := by decide

example : rightAligned 2 "7" = " 7" := by decide

end EightBit.Text
