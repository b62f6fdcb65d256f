import EightBit.Proofs.Numeral
import EightBit.Text.Column
import Mathlib.Data.List.DropRight

/-!
# Reading columns

A line whose parts have fixed widths is read by the places of its characters.
-/

namespace EightBit.Text

/-- The characters of a line in the column of a given width that begins at a place, counted from
`0` on. -/
def column (start width : Nat) (line : List Char) : List Char :=
  (line.drop start).take width

theorem column_append (before field after : List Char) :
    column before.length field.length (before ++ (field ++ after)) = field := by
  rw [column, List.drop_left, List.take_left]

/-- The places and widths of parts that stand side by side. -/
def places (start : Nat) : List Nat → List (Nat × Nat)
  | [] => []
  | width :: rest => (start, width) :: places (start + width) rest

/-- Parts that stand side by side are found at their places. -/
theorem forall₂_column (parts : List String) (before after : List Char) :
    List.Forall₂ (fun place part =>
        column place.1 place.2 (before ++ (parts.flatMap String.toList ++ after)) = part.toList)
      (places before.length (parts.map String.length)) parts := by
  induction parts generalizing before with
  | nil => exact .nil
  | cons part rest ih =>
      have hrest := ih (before ++ part.toList)
      rw [List.append_assoc, List.length_append] at hrest
      rw [List.flatMap_cons, List.append_assoc, List.map_cons, ← String.length_toList]
      exact .cons (column_append before part.toList _) hrest

/-- A text is found in front of what follows it. -/
theorem dropPrefix?_append (front rest : List Char) :
    (front ++ rest).dropPrefix? front = some rest :=
  List.dropPrefix?_eq_some_iff.mpr ⟨front, rfl, beq_self_eq_true front⟩

/-- The text in a column without the spaces that fill it. -/
def unfilled (chars : List Char) : List Char :=
  chars.rdropWhile (· = ' ')

theorem unfilled_append_replicate (chars : List Char) (count : Nat) :
    unfilled (chars ++ List.replicate count ' ') = unfilled chars := by
  induction count with
  | zero => rw [List.replicate_zero, List.append_nil]
  | succ count ih =>
      rw [List.replicate_succ', ← List.append_assoc, unfilled,
        List.rdropWhile_concat_pos _ _ _ (by decide)]
      exact ih

theorem length_leftAligned {width : Nat} {s : String} (hwidth : s.toList.length ≤ width) :
    (leftAligned width s).toList.length = width := by
  rw [leftAligned, String.toList_ofList, List.length_rightpad, Nat.max_eq_left hwidth]

/-- A text that does not end with a space comes back from its column. -/
theorem unfilled_leftAligned {s : String} (hlast : s.toList.getLast? ≠ some ' ') (width : Nat) :
    unfilled (leftAligned width s).toList = s.toList := by
  rw [leftAligned, String.toList_ofList, List.rightpad, unfilled_append_replicate, unfilled,
    List.rdropWhile_eq_self_iff]
  intro hne hspace
  rw [List.getLast?_eq_some_getLast hne] at hlast
  exact hlast (congrArg some (of_decide_eq_true hspace))

/-- A text that does not begin with a space comes back from the right edge of its column. -/
theorem dropWhile_rightAligned {s : String} (hfirst : s.toList.head? ≠ some ' ') (width : Nat) :
    (rightAligned width s).toList.dropWhile (· = ' ') = s.toList := by
  have hfilling : ∀ c ∈ List.replicate (width - s.toList.length) ' ', decide (c = ' ') = true :=
    fun c hc => decide_eq_true (List.eq_of_mem_replicate hc)
  rw [rightAligned, String.toList_ofList, List.leftpad, List.dropWhile_append_of_pos hfilling,
    List.dropWhile_eq_self_iff]
  intro hlength hspace
  rw [List.head?_eq_getElem?, List.getElem?_eq_getElem hlength] at hfirst
  exact hfirst (congrArg some (of_decide_eq_true hspace))

theorem dropWhile_rightAligned_decimal (width n : Nat) :
    (rightAligned width (Numeral.decimal n)).toList.dropWhile (· = ' ') =
      (Numeral.decimal n).toList := by
  have hspace : ' ' ∉ (Numeral.decimal n).toList :=
    Numeral.not_mem_decimal (by decide) n
  exact dropWhile_rightAligned (fun hfirst => hspace (List.mem_of_head? hfirst)) width

theorem not_mem_rightAligned {c : Char} {s : String} (hspace : c ≠ ' ') (hs : c ∉ s.toList)
    (width : Nat) : c ∉ (rightAligned width s).toList := by
  rw [rightAligned, String.toList_ofList, List.leftpad, List.mem_append, not_or]
  exact ⟨fun hfilling => hspace (List.eq_of_mem_replicate hfilling), hs⟩

theorem not_mem_leftAligned {c : Char} {s : String} (hspace : c ≠ ' ') (hs : c ∉ s.toList)
    (width : Nat) : c ∉ (leftAligned width s).toList := by
  rw [leftAligned, String.toList_ofList, List.rightpad, List.mem_append, not_or]
  exact ⟨hs, fun hfilling => hspace (List.eq_of_mem_replicate hfilling)⟩

end EightBit.Text
