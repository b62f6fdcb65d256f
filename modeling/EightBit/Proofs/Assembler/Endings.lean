import EightBit.Proofs.Assembler.Composition
import Mathlib.Data.List.Forall2

/-!
# Endings of lines

The lines of a program may end with a line feed or with a carriage return and a line feed, and the
last one with either or with nothing. The pieces between the line feeds are all that is assembled,
and of those the blanks at their ends do not count, so the endings make no difference.
-/

namespace EightBit

namespace Text

/-- The text with a carriage return in front of every line feed. -/
def withReturns (text : List Char) : List Char :=
  text.flatMap fun c => if c = '\n' then ['\r', '\n'] else [c]

theorem withReturns_cons_feed (rest : List Char) :
    withReturns ('\n' :: rest) = '\r' :: '\n' :: withReturns rest := rfl

theorem withReturns_cons_of_ne {c : Char} (hc : c ≠ '\n') (rest : List Char) :
    withReturns (c :: rest) = c :: withReturns rest := by
  simp [withReturns, hc]

/-- The second piece is the first one, or has one carriage return more at its end. -/
def SameButReturn (piece other : List Char) : Prop :=
  other = piece ∨ other = piece ++ ['\r']

theorem SameButReturn.cons {piece other : List Char} (hsame : SameButReturn piece other)
    (c : Char) : SameButReturn (c :: piece) (c :: other) := by
  rcases hsame with rfl | rfl
  · exact Or.inl rfl
  · exact Or.inr rfl

theorem SameButReturn.trim_eq {piece other : List Char} (hsame : SameButReturn piece other) :
    trim other = trim piece := by
  rcases hsame with rfl | rfl
  · rfl
  · exact trim_append_blank (by decide) piece

/-- The carriage returns are at the ends of the pieces that the line feeds leave of a text. -/
theorem forall₂_splitOn_withReturns (text : List Char) :
    List.Forall₂ SameButReturn (text.splitOn '\n') ((withReturns text).splitOn '\n') := by
  induction text with
  | nil => exact .cons (Or.inl rfl) .nil
  | cons c rest ih =>
      by_cases hc : c = '\n'
      · subst hc
        simp only [withReturns_cons_feed, List.splitOn_cons_eq_if_modifyHead]
        exact .cons (Or.inr rfl) ih
      · have hne : ¬(c == '\n') = true := by simpa using hc
        simp only [withReturns_cons_of_ne hc, List.splitOn_cons_eq_if_modifyHead, if_neg hne]
        -- The character goes to the front of the first pieces, and the ends stay as they are.
        generalize rest.splitOn '\n' = pieces, (withReturns rest).splitOn '\n' = others at ih
        cases ih with
        | nil => exact .nil
        | cons hfirst hrest => exact .cons (hfirst.cons c) hrest

end Text

namespace Assembly

/-- Lines that are the same without the blanks at their ends are assembled alike. -/
theorem ofLinesFrom_congr {left right : List (List Char)}
    (hlines : List.Forall₂ (fun line other => Text.trim other = Text.trim line) left right)
    (first : Nat) :
    ofLinesFrom first (right.map String.ofList) = ofLinesFrom first (left.map String.ofList) := by
  induction hlines generalizing first with
  | nil => rfl
  | cons hline _ ih =>
      rw [List.map_cons, List.map_cons, ofLinesFrom, ofLinesFrom, ofLine_congr hline, ih]

/-- A text is assembled piece by piece, with the carriage returns in front of its line feeds. -/
theorem ofText_eq_ofLines_pieces (text : String) :
    ofText text = ofLines ((text.toList.splitOn '\n').map String.ofList) := by
  rw [ofText, ofLines, ← ofLinesFrom_pieces, ofLines]
  apply ofLinesFrom_congr
  rw [List.forall₂_map_right_iff]
  exact List.forall₂_same.mpr fun piece _ => Text.trim_withoutReturn piece

theorem ofText_append_ending (text : String) : ofText (text ++ "\n") = ofText text := by
  have hparts := ofText_append_feed text ""
  have hempty : ofText "" = ∅ := rfl
  rw [String.append_empty, hempty] at hparts
  rw [hparts]
  exact append_empty (ofText text)

theorem ofText_withReturns (text : String) :
    ofText (String.ofList (Text.withReturns text.toList)) = ofText text := by
  rw [ofText_eq_ofLines_pieces, ofText_eq_ofLines_pieces, String.toList_ofList]
  apply ofLinesFrom_congr
  exact (Text.forall₂_splitOn_withReturns text.toList).imp fun _ _ hsame => hsame.trim_eq

/-- The assembly of a text is the same with carriage returns in front of all its line feeds, and the
same with one more line feed at its end, whatever carriage returns and line feeds it has already. -/
theorem ofText_of_any_ending (text : String) :
    ofText (String.ofList (Text.withReturns text.toList)) = ofText text ∧
      ofText (text ++ "\n") = ofText text :=
  ⟨ofText_withReturns text, ofText_append_ending text⟩

/-- A carriage return within a line stands between tokens. -/
example : (ofText "MOV R0,\r#2\r\r\n\nNOT R1\r").lines =
    [⟨1, "MOV R0,\r#2", 0xA6⟩, ⟨3, "NOT R1", 0xE8⟩] := by decide

end Assembly

end EightBit
