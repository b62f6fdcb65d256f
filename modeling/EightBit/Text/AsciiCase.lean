/-!
# Equality up to ASCII case

Two texts are alike when they differ at most in the case of the letters `A` to `Z`. Letters outside
ASCII count as written: a dotless `ı` is not an `I`.
-/

namespace EightBit.Text

/-- The characters with `A` to `Z` in lower case and all others as they are. -/
def foldCase (chars : List Char) : List Char :=
  chars.map Char.toLower

/-- Whether two texts are equal up to the case of their ASCII letters. -/
def alike (s t : String) : Bool :=
  foldCase s.toList == foldCase t.toList

theorem alike_iff {s t : String} : alike s t = true ↔ foldCase s.toList = foldCase t.toList := by
  simp [alike]

example : alike "Mov" "mOV" = true ∧ alike "ıf" "If" = false := by decide

end EightBit.Text
