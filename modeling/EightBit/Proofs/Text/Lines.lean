import EightBit.Text.Blank
import EightBit.Text.Lines
import Mathlib.Data.List.Basic
import Mathlib.Data.List.DropRight

/-!
# Lines that are joined

Joining lines with line feeds and taking the text apart again gives the same lines, as far as none
of them can be mistaken for a part of an ending. A line feed between two texts ends the last piece
of the first, even an empty one, and leaves the lines of the second alone.
-/

namespace EightBit.Text

/-- A line that comes back from every place in a text. It is not empty, has no line feed in it and
no carriage return at its end. -/
structure Solid (line : List Char) : Prop where
  ne_nil : line ≠ []
  no_feed : '\n' ∉ line
  no_return : line.getLast? ≠ some '\r'

theorem withoutReturn_of_solid {line : List Char} (hsolid : Solid line) :
    withoutReturn line = line := by
  rw [withoutReturn, if_neg hsolid.no_return]

theorem lines_intercalate {lines : List (List Char)} (hsolid : ∀ line ∈ lines, Solid line) :
    Text.lines (['\n'].intercalate lines) = lines := by
  by_cases hlines : lines = []
  · subst hlines
    rfl
  · have hsplit := List.splitOn_intercalate '\n' (fun line hline => (hsolid line hline).no_feed)
      hlines
    have hlast := (hsolid _ (List.getLast_mem hlines)).ne_nil
    have hkept : lines.dropLast.map withoutReturn = lines.dropLast := by
      refine (List.map_congr_left ?_).trans (List.map_id _)
      intro line hline
      exact withoutReturn_of_solid (hsolid line (List.dropLast_subset lines hline))
    simp only [Text.lines, hsplit, hkept, List.getLast?_eq_some_getLast hlines]
    rw [Option.filter_some, if_pos (decide_eq_true hlast), Option.toList_some,
      List.dropLast_concat_getLast]

/-- The lines of a text that line feeds join. -/
theorem lines_intercalate_toList {lines : List String}
    (hsolid : ∀ line ∈ lines, Solid line.toList) :
    (Text.lines ("\n".intercalate lines).toList).map String.ofList = lines := by
  have hchars : ∀ chars ∈ lines.map String.toList, Solid chars := by
    intro chars hchars
    obtain ⟨line, hline, rfl⟩ := List.mem_map.mp hchars
    exact hsolid line hline
  have hfeed : "\n".toList = ['\n'] := rfl
  rw [String.toList_intercalate, hfeed, lines_intercalate hchars, List.map_map]
  exact List.map_id'' (fun _ => String.ofList_toList) lines

/-! ## Texts that a line feed joins -/

theorem lines_append_feed (before after : List Char) :
    Text.lines (before ++ '\n' :: after) =
      (before.splitOn '\n').map withoutReturn ++ Text.lines after := by
  have hne : after.splitOn '\n' ≠ [] := List.splitOn_ne_nil '\n' after
  simp only [Text.lines, List.splitOn_append_cons_self, List.dropLast_append_of_ne_nil hne,
    List.getLast?_append_of_ne_nil _ hne, List.map_append, List.append_assoc]

theorem splitOn_feed {line : List Char} (hline : '\n' ∉ line) : line.splitOn '\n' = [line] := by
  refine List.splitOnP_eq_singleton fun c hc => beq_false_of_ne ?_
  rintro rfl
  exact hline hc

theorem toList_unlines_cons (line : String) (rest : List String) :
    (unlines (line :: rest)).toList = line.toList ++ '\n' :: (unlines rest).toList := by
  simp [unlines, String.toList_join]

theorem unlines_append (before after : List String) :
    unlines (before ++ after) = unlines before ++ unlines after := by
  apply String.toList_inj.mp
  simp [unlines, String.toList_join]

/-- The lines of a text in which every line is ended, even those that are empty. -/
theorem lines_unlines {lines : List String} (hfeed : ∀ line ∈ lines, '\n' ∉ line.toList)
    (hreturn : ∀ line ∈ lines, line.toList.getLast? ≠ some '\r') :
    Text.lines (unlines lines).toList = lines.map String.toList := by
  induction lines with
  | nil => rfl
  | cons line rest ih =>
      rw [List.forall_mem_cons] at hfeed hreturn
      rw [toList_unlines_cons, lines_append_feed, splitOn_feed hfeed.1, ih hfeed.2 hreturn.2,
        List.map_singleton, withoutReturn, if_neg hreturn.1]
      rfl

theorem length_splitOn_feed (text : List Char) :
    (text.splitOn '\n').length = text.count '\n' + 1 := by
  induction text with
  | nil => rfl
  | cons c rest ih =>
      rw [List.splitOn_cons_eq_if_modifyHead, List.count_cons]
      split
      · rw [List.length_cons, ih]
      · rw [List.length_modifyHead, ih, Nat.add_zero]

/-! ## No line feed in a line -/

theorem feed_not_mem_splitOn (text : List Char) : ∀ piece ∈ text.splitOn '\n', '\n' ∉ piece := by
  induction text with
  | nil =>
      intro piece hpiece
      obtain rfl := List.mem_singleton.mp hpiece
      exact List.not_mem_nil
  | cons c rest ih =>
      rw [List.splitOn_cons_eq_if_modifyHead]
      split
      · rw [List.forall_mem_cons]
        exact ⟨List.not_mem_nil, ih⟩
      · rename_i hc
        obtain ⟨piece, pieces, hpieces⟩ :=
          List.exists_cons_of_ne_nil (List.splitOn_ne_nil '\n' rest)
        rw [hpieces, List.forall_mem_cons] at ih
        rw [hpieces, List.modifyHead_cons, List.forall_mem_cons]
        refine ⟨?_, ih.2⟩
        rintro hmem
        rcases List.mem_cons.mp hmem with rfl | hpiece
        · exact hc (beq_self_eq_true _)
        · exact ih.1 hpiece

theorem withoutReturn_subset (line : List Char) : withoutReturn line ⊆ line := by
  rw [withoutReturn]
  split
  · exact List.dropLast_subset line
  · exact List.Subset.refl line

theorem trim_subset (chars : List Char) : trim chars ⊆ chars := by
  intro c hc
  rw [trim, List.mem_reverse] at hc
  have hfront := List.dropWhile_subset isBlank hc
  exact List.dropWhile_subset isBlank (List.mem_reverse.mp hfront)

theorem feed_not_mem_lines {text line : List Char} (hline : line ∈ Text.lines text) :
    '\n' ∉ line := by
  simp only [Text.lines, List.mem_append, List.mem_map, Option.mem_toList] at hline
  rcases hline with ⟨piece, hpiece, rfl⟩ | hlast
  · have hplain := feed_not_mem_splitOn text piece (List.dropLast_subset _ hpiece)
    exact fun hmem => hplain (withoutReturn_subset piece hmem)
  · have hfound := (Option.filter_eq_some_iff.mp hlast).1
    exact feed_not_mem_splitOn text line (List.mem_of_getLast? hfound)

/-! ## Blanks at the ends of a line -/

/-- Nothing blank is left at the two ends. -/
theorem trim_trim (chars : List Char) : trim (trim chars) = trim chars := by
  have hends (text : List Char) : trim text = (text.dropWhile isBlank).rdropWhile isBlank := rfl
  have hbegin : trim chars <+: chars.dropWhile isBlank := List.rdropWhile_prefix isBlank _
  have hfront : (trim chars).dropWhile isBlank = trim chars := by
    rw [List.dropWhile_eq_self_iff]
    intro hpos
    rw [hbegin.getElem hpos]
    exact List.dropWhile_get_zero_not isBlank chars (hpos.trans_le hbegin.length_le)
  rw [hends (trim chars), hfront, hends chars, List.rdropWhile_idempotent]

theorem getLast?_trim_ne {c : Char} (hc : isBlank c = true) (chars : List Char) :
    (trim chars).getLast? ≠ some c := by
  intro hlast
  have hne : trim chars ≠ [] := by
    rintro hnil
    rw [hnil] at hlast
    cases hlast
  rw [List.getLast?_eq_some_getLast hne, Option.some_inj] at hlast
  have hkept : ¬isBlank ((trim chars).getLast hne) = true :=
    List.rdropWhile_last_not isBlank (chars.dropWhile isBlank) hne
  rw [hlast] at hkept
  exact hkept hc

theorem trim_append_blank {c : Char} (hc : isBlank c = true) (chars : List Char) :
    trim (chars ++ [c]) = trim chars := by
  have hdrop : [c].dropWhile isBlank = [] := List.dropWhile_cons_of_pos hc
  rw [trim, trim, List.dropWhile_append]
  split
  · rename_i hblank
    rw [List.isEmpty_iff] at hblank
    rw [hblank, hdrop]
  · rw [List.reverse_append, List.reverse_singleton, List.singleton_append,
      List.dropWhile_cons_of_pos hc]

/-- The carriage return of an ending is blank. -/
theorem trim_withoutReturn (line : List Char) : trim (withoutReturn line) = trim line := by
  rw [withoutReturn]
  split
  · rename_i hreturn
    have hline : line.dropLast ++ ['\r'] = line :=
      List.dropLast_append_getLast? '\r' hreturn
    have hblank : isBlank '\r' = true := by decide
    rw [← trim_append_blank hblank line.dropLast, hline]
  · rfl

end EightBit.Text
