import EightBit.Proofs.Assembler.Parsing
import EightBit.Proofs.Assembler.Program
import EightBit.Proofs.Text.Lines

/-!
# Programs in parts

Lines are assembled one by one, and of what stands before it a line only sees how many lines there
are. So the assembly of a program is put together from those of its parts, and a line that gives a
word can be replaced by any other without a change to the rest.
-/

namespace EightBit

namespace Assembly

/-- The assembly with its line numbers increased. -/
def shifted (offset : Nat) (assembly : Assembly) : Assembly where
  lines := assembly.lines.map fun line => { line with number := line.number + offset }
  diagnostics := assembly.diagnostics.map fun diagnostic =>
    { diagnostic with line := diagnostic.line + offset }

@[simp] theorem append_empty (a : Assembly) : a ++ ∅ = a := by
  cases a
  exact congrArg₂ mk (List.append_nil _) (List.append_nil _)

@[simp] theorem empty_append (a : Assembly) : ∅ ++ a = a := rfl

theorem append_assoc (a b c : Assembly) : a ++ b ++ c = a ++ (b ++ c) :=
  congrArg₂ mk (List.append_assoc ..) (List.append_assoc ..)

@[simp] theorem shifted_append (offset : Nat) (a b : Assembly) :
    shifted offset (a ++ b) = shifted offset a ++ shifted offset b :=
  congrArg₂ mk List.map_append List.map_append

/-! ## Lists of lines -/

theorem ofLine_add (number offset : Nat) (line : String) :
    ofLine (number + offset) line = shifted offset (ofLine number line) := by
  cases hline : Statement.ofLine line with
  | error error =>
      rw [ofLine_of_error hline, ofLine_of_error hline]
      rfl
  | ok found =>
      cases found with
      | none =>
          rw [ofLine_of_none hline, ofLine_of_none hline]
          rfl
      | some statement =>
          rw [ofLine_of_some hline, ofLine_of_some hline]
          simp [shifted]

theorem ofLinesFrom_add (first offset : Nat) (lines : List String) :
    ofLinesFrom (first + offset) lines = shifted offset (ofLinesFrom first lines) := by
  induction lines generalizing first with
  | nil => rfl
  | cons line rest ih =>
      rw [ofLinesFrom, ofLinesFrom, shifted_append, ofLine_add, ← ih, Nat.add_right_comm]

theorem ofLinesFrom_append (first : Nat) (before after : List String) :
    ofLinesFrom first (before ++ after) =
      ofLinesFrom first before ++ ofLinesFrom (first + before.length) after := by
  induction before generalizing first with
  | nil => rfl
  | cons line rest ih =>
      rw [List.cons_append, ofLinesFrom, ofLinesFrom, ih, append_assoc, List.length_cons,
        Nat.add_right_comm, Nat.add_assoc]

theorem ofLinesFrom_singleton (number : Nat) (line : String) :
    ofLinesFrom number [line] = ofLine number line :=
  append_empty (ofLine number line)

theorem ofLines_append (before after : List String) :
    ofLines (before ++ after) = ofLines before ++ shifted before.length (ofLines after) := by
  rw [ofLines, ofLinesFrom_append, ofLinesFrom_add, ofLines, ofLines]

/-! ## Texts -/

theorem ofLine_congr {left right : List Char} (htrim : Text.trim left = Text.trim right)
    (number : Nat) : ofLine number (String.ofList left) = ofLine number (String.ofList right) := by
  simp only [ofLine, String.toList_ofList, htrim]

/-- An empty last piece of a text is no line of it, and has no word either. Elsewhere a carriage
return at the end of a piece makes no difference. -/
theorem ofLinesFrom_pieces (first : Nat) (text : List Char) :
    ofLinesFrom first (((text.splitOn '\n').map Text.withoutReturn).map String.ofList) =
      ofLinesFrom first ((Text.lines text).map String.ofList) := by
  obtain ⟨init, last, hpieces⟩ :=
    (List.eq_nil_or_concat (text.splitOn '\n')).resolve_left (List.splitOn_ne_nil '\n' text)
  rw [List.concat_eq_append] at hpieces
  simp only [Text.lines, hpieces, List.dropLast_concat, List.getLast?_concat, List.map_append,
    ofLinesFrom_append, List.map_singleton]
  refine congrArg (_ ++ ·) ?_
  by_cases hlast : last = []
  · have hempty : Statement.ofLine "" = .ok none := rfl
    subst hlast
    exact (ofLinesFrom_singleton _ "").trans (ofLine_of_none hempty)
  · rw [Option.filter_some, if_pos (decide_eq_true hlast), Option.toList_some,
      List.map_singleton, ofLinesFrom_singleton, ofLinesFrom_singleton,
      ofLine_congr (Text.trim_withoutReturn last)]

theorem ofText_append_feed (before after : String) :
    ofText (before ++ "\n" ++ after) =
      ofText before ++ shifted (1 + before.toList.count '\n') (ofText after) := by
  have hfeed : "\n".toList = ['\n'] := rfl
  rw [ofText, String.toList_append, String.toList_append, hfeed, List.append_assoc,
    List.singleton_append, Text.lines_append_feed, List.map_append, ofLines_append, ofLines,
    ofLinesFrom_pieces, List.length_map, List.length_map, Text.length_splitOn_feed, Nat.add_comm]
  rfl

/-! ## Replacing a line -/

/-- A line with a token has one word, and all there is to say is about this line. -/
theorem exists_ofLine_eq {line : String} (htokens : Token.ofLine line ≠ []) :
    ∃ (word : UInt8) (problems : List Problem), ∀ number, ofLine number line =
      ⟨[⟨number, source line, word⟩],
        problems.map fun problem => ⟨number, source line, problem⟩⟩ := by
  cases hline : Statement.ofLine line with
  | error error => exact ⟨nop, [.error error], fun number => ofLine_of_error hline⟩
  | ok found =>
      cases found with
      | none => exact absurd (Statement.ofLine_eq_none_iff.mp hline) htokens
      | some statement =>
          refine ⟨statement.word, statement.warnings.map .warning, fun number => ?_⟩
          rw [ofLine_of_some hline, List.map_map]
          rfl

theorem ofLines_append_cons (before after : List String) (line : String) :
    ofLines (before ++ line :: after) =
      ofLines before ++ (ofLine (before.length + 1) line ++
        ofLinesFrom (before.length + 2) after) := by
  rw [ofLines, ofLinesFrom_append, Nat.add_comm 1, ofLinesFrom, ofLines]

theorem lines_append_cons {line : String} (htokens : Token.ofLine line ≠ [])
    (before after : List String) :
    ∃ word, (ofLines (before ++ line :: after)).lines =
      (ofLines before).lines ++ ⟨before.length + 1, source line, word⟩ ::
        (ofLinesFrom (before.length + 2) after).lines := by
  obtain ⟨word, problems, hline⟩ := exists_ofLine_eq htokens
  refine ⟨word, ?_⟩
  rw [ofLines_append_cons, hline]
  rfl

/-- What is said about the other lines does not depend on a line with a token. -/
theorem filter_diagnostics_append_cons {line : String} (htokens : Token.ofLine line ≠ [])
    (before after : List String) :
    (ofLines (before ++ line :: after)).diagnostics.filter (·.line ≠ before.length + 1) =
      (ofLines before ++ ofLinesFrom (before.length + 2) after).diagnostics.filter
        (·.line ≠ before.length + 1) := by
  obtain ⟨word, problems, hline⟩ := exists_ofLine_eq htokens
  have hown : (problems.map fun problem =>
      (⟨before.length + 1, source line, problem⟩ : Diagnostic)).filter
        (·.line ≠ before.length + 1) = [] := by
    simp [List.filter_eq_nil_iff]
  rw [ofLines_append_cons, hline]
  simp only [diagnostics_append, List.filter_append, hown, List.nil_append]

/-- The assembly of a program is that of its first lines and that of the others, with the numbers
that they have in the whole. The same is so for two texts with a line feed between them. A line with
a token can be replaced by any other such line, and no other line and no diagnostic of another line
changes or moves. -/
theorem assembled_in_parts :
    (∀ before after : List String,
        ofLines (before ++ after) = ofLines before ++ shifted before.length (ofLines after)) ∧
      (∀ before after : String,
        ofText (before ++ "\n" ++ after) =
          ofText before ++ shifted (1 + before.toList.count '\n') (ofText after)) ∧
      ∀ (before after : List String) (line other : String), Token.ofLine line ≠ [] →
        Token.ofLine other ≠ [] →
        ((ofLines (before ++ line :: after)).lines[(ofLines before).lines.length]?).map (·.number) =
            some (before.length + 1) ∧
          (ofLines (before ++ other :: after)).lines.length =
            (ofLines (before ++ line :: after)).lines.length ∧
          (∀ index ≠ (ofLines before).lines.length,
            (ofLines (before ++ other :: after)).lines[index]? =
              (ofLines (before ++ line :: after)).lines[index]?) ∧
          (ofLines (before ++ other :: after)).diagnostics.filter (·.line ≠ before.length + 1) =
            (ofLines (before ++ line :: after)).diagnostics.filter
              (·.line ≠ before.length + 1) := by
  refine ⟨ofLines_append, ofText_append_feed, ?_⟩
  intro before after line other hline hother
  obtain ⟨word, hlines⟩ := lines_append_cons hline before after
  obtain ⟨otherWord, hothers⟩ := lines_append_cons hother before after
  rw [hlines, hothers]
  refine ⟨?_, ?_, ?_, ?_⟩
  · rw [List.getElem?_append_right (Nat.le_refl _), Nat.sub_self]
    rfl
  · rw [List.length_append, List.length_append, List.length_cons, List.length_cons]
  · intro index hindex
    rcases Nat.lt_or_gt_of_ne hindex with hbefore | hafter
    · rw [List.getElem?_append_left hbefore, List.getElem?_append_left hbefore]
    · obtain ⟨more, rfl⟩ := Nat.exists_eq_add_of_lt hafter
      rw [List.getElem?_append_right (Nat.le_of_lt hafter),
        List.getElem?_append_right (Nat.le_of_lt hafter), Nat.add_assoc, Nat.add_sub_cancel_left,
        List.getElem?_cons_succ, List.getElem?_cons_succ]
  · rw [filter_diagnostics_append_cons hline, filter_diagnostics_append_cons hother]

/-- The second of three lines cannot be read, and the others stay as and where they are when it is
put right. -/
theorem assembled_in_parts_unknown_register :
    Token.ofLine "MOV R9" ≠ [] ∧ Token.ofLine "MOV R1, #1" ≠ [] ∧
      (ofLines ["NOP", "MOV R1, #1", "NOT R1"]).lines.length =
        (ofLines ["NOP", "MOV R9", "NOT R1"]).lines.length ∧
      (∀ index ≠ 1, (ofLines ["NOP", "MOV R1, #1", "NOT R1"]).lines[index]? =
        (ofLines ["NOP", "MOV R9", "NOT R1"]).lines[index]?) ∧
      (ofLines ["NOP", "MOV R1, #1", "NOT R1"]).diagnostics.filter (·.line ≠ 2) =
        (ofLines ["NOP", "MOV R9", "NOT R1"]).diagnostics.filter (·.line ≠ 2) := by
  have hline : Token.ofLine "MOV R9" ≠ [] := by decide
  have hother : Token.ofLine "MOV R1, #1" ≠ [] := by decide
  have hplace : (ofLines ["NOP"]).lines.length = 1 := by decide
  obtain ⟨_, hlength, hlines, hdiagnostics⟩ :=
    assembled_in_parts.2.2 ["NOP"] ["NOT R1"] "MOV R9" "MOV R1, #1" hline hother
  rw [hplace] at hlines
  exact ⟨hline, hother, hlength, hlines, hdiagnostics⟩

end Assembly

end EightBit
