import EightBit.Proofs.Assembler.Composition
import EightBit.Proofs.Source.Messages

/-!
# Lines and their numbers

The lines of an assembly are the lines of the program that have a token, with their places in the
program as numbers, and every diagnostic is about one of them. Nothing else of the program matters:
the texts of the assembled lines are assembled to the same words and diagnostics again, with the
numbers that the lines have without the others.
-/

namespace EightBit

/-- The problem of a line that has no word of its own, so that a `nop` keeps its place. -/
def Problem.Padded : Problem → Prop
  | .error _ | .warning (.threeOperands _) | .warning (.unknownInstruction _) => True
  | .warning (.immediateTruncated ..) | .warning (.targetTruncated ..)
  | .warning (.aliasedAsJump ..) => False

/-- The diagnostic is about the line, which has a `nop` when the problem is that it has no word. -/
structure Diagnostic.About (diagnostic : Diagnostic) (line : AssembledLine) : Prop where
  number : diagnostic.line = line.number
  source : diagnostic.source = line.source
  word : diagnostic.problem.Padded → line.word = 0

theorem Statement.word_of_padded (statement : Statement) :
    ∀ warning ∈ statement.warnings, Problem.Padded (.warning warning) → statement.word = 0 := by
  fun_cases warnings statement <;> simp [Problem.Padded, word, EightBit.nop]

namespace Assembly

/-- The assembly stands for the lines: it has those with a token, and there is one diagnostic at
most for each of them. -/
structure Represents (assembly : Assembly) (input : List String) : Prop where
  line_iff : ∀ number text, (∃ word, ⟨number, text, word⟩ ∈ assembly.lines) ↔
    ∃ index line, input[index]? = some line ∧
      (∃ token tokens, Token.Reads line (token :: tokens)) ∧ number = index + 1 ∧
      text = source line
  increasing : assembly.lines.Pairwise (·.number < ·.number)
  diagnostics_increasing : assembly.diagnostics.Pairwise (·.line < ·.line)
  about : ∀ diagnostic ∈ assembly.diagnostics, ∃ line ∈ assembly.lines, diagnostic.About line

/-- The assembly with its lines numbered one after the other, where a diagnostic stays with the line
that it is about. -/
def renumbered (first : Nat) (assembly : Assembly) : Assembly where
  lines := assembly.lines.mapIdx fun index line => { line with number := first + index }
  diagnostics := assembly.diagnostics.map fun diagnostic =>
    { diagnostic with
      line := first + (assembly.lines.map (·.number)).idxOf diagnostic.line }

@[simp] theorem bytes_renumbered (first : Nat) (assembly : Assembly) :
    (assembly.renumbered first).bytes = assembly.bytes := by
  apply List.ext_getElem?
  simp [bytes, renumbered, Function.comp_def]

/-! ## One line -/

/-- The text of an assembled line is trimmed already, and says the same as the whole line. -/
theorem ofLine_source (number : Nat) (line : String) :
    ofLine number (source line) = ofLine number line := by
  simpa [source] using ofLine_congr (Text.trim_trim line.toList) number

theorem ofLine_of_nil {line : String} (htokens : Token.ofLine line = []) (number : Nat) :
    ofLine number line = ∅ :=
  ofLine_of_none (Statement.ofLine_eq_none_iff.mpr htokens)

/-- A line without a token leaves nothing but its number. -/
theorem ofLinesFrom_cons_of_nil {line : String} (htokens : Token.ofLine line = []) (first : Nat)
    (rest : List String) : ofLinesFrom first (line :: rest) = ofLinesFrom (first + 1) rest := by
  rw [ofLinesFrom, ofLine_of_nil htokens, empty_append]

theorem exists_mem_lines_ofLine_iff {first number : Nat} {text line : String} :
    (∃ word, ⟨number, text, word⟩ ∈ (ofLine first line).lines) ↔
      (∃ token tokens, Token.Reads line (token :: tokens)) ∧ number = first ∧
        text = source line := by
  simp only [Token.reads_iff, ← List.ne_nil_iff_exists_cons]
  by_cases htokens : Token.ofLine line = []
  · simp [ofLine_of_nil htokens, htokens]
  · obtain ⟨word, problems, hline⟩ := exists_ofLine_eq htokens
    simp [hline, htokens]

theorem exists_about_ofLine {number : Nat} {line : String} :
    ∀ diagnostic ∈ (ofLine number line).diagnostics,
      ∃ assembled ∈ (ofLine number line).lines, diagnostic.About assembled := by
  cases hline : Statement.ofLine line with
  | error error =>
      rw [ofLine_of_error hline]
      intro diagnostic hdiagnostic
      obtain rfl := List.mem_singleton.mp hdiagnostic
      exact ⟨_, List.mem_singleton_self _, rfl, rfl, fun _ => rfl⟩
  | ok found =>
      cases found with
      | none =>
          rw [ofLine_of_none hline]
          exact List.forall_mem_nil _
      | some statement =>
          rw [ofLine_of_some hline]
          intro diagnostic hdiagnostic
          obtain ⟨warning, hwarning, rfl⟩ := List.mem_map.mp hdiagnostic
          exact ⟨_, List.mem_singleton_self _, rfl, rfl, statement.word_of_padded warning hwarning⟩

/-! ## All lines -/

theorem exists_mem_lines_iff (first : Nat) (input : List String) (number : Nat) (text : String) :
    (∃ word, ⟨number, text, word⟩ ∈ (ofLinesFrom first input).lines) ↔
      ∃ index line, input[index]? = some line ∧
        (∃ token tokens, Token.Reads line (token :: tokens)) ∧ number = first + index ∧
        text = source line := by
  induction input generalizing first with
  | nil => simp [ofLinesFrom]
  | cons line rest ih =>
      rw [← Nat.or_exists_add_one]
      simp only [ofLinesFrom, lines_append, List.mem_append, exists_or, ih,
        exists_mem_lines_ofLine_iff]
      simp [Nat.add_assoc, Nat.add_comm 1]

theorem le_number_of_mem_lines {first : Nat} {input : List String} {line : AssembledLine}
    (hline : line ∈ (ofLinesFrom first input).lines) : first ≤ line.number := by
  obtain ⟨index, _, _, _, hnumber, _⟩ :=
    (exists_mem_lines_iff first input line.number line.source).mp ⟨line.word, hline⟩
  rw [hnumber]
  exact Nat.le_add_right first index

theorem pairwise_lines_ofLinesFrom (first : Nat) (input : List String) :
    (ofLinesFrom first input).lines.Pairwise (·.number < ·.number) := by
  induction input generalizing first with
  | nil => exact .nil
  | cons line rest ih =>
      by_cases htokens : Token.ofLine line = []
      · rw [ofLinesFrom_cons_of_nil htokens]
        exact ih (first + 1)
      · obtain ⟨word, problems, hline⟩ := exists_ofLine_eq htokens
        rw [ofLinesFrom, hline, lines_append, List.singleton_append, List.pairwise_cons]
        exact ⟨fun _ hother => le_number_of_mem_lines hother, ih (first + 1)⟩

theorem exists_about_ofLinesFrom (first : Nat) (input : List String) :
    ∀ diagnostic ∈ (ofLinesFrom first input).diagnostics,
      ∃ line ∈ (ofLinesFrom first input).lines, diagnostic.About line := by
  induction input generalizing first with
  | nil => exact List.forall_mem_nil _
  | cons line rest ih =>
      intro diagnostic hdiagnostic
      rw [ofLinesFrom, diagnostics_append, List.mem_append] at hdiagnostic
      rcases hdiagnostic with hline | hrest
      · obtain ⟨assembled, hassembled, habout⟩ := exists_about_ofLine diagnostic hline
        exact ⟨assembled, List.mem_append_left _ hassembled, habout⟩
      · obtain ⟨assembled, hassembled, habout⟩ := ih (first + 1) diagnostic hrest
        exact ⟨assembled, List.mem_append_right _ hassembled, habout⟩

theorem represents_ofLines (input : List String) : (ofLines input).Represents input where
  line_iff number text := by
    simp only [ofLines, exists_mem_lines_iff, Nat.add_comm 1]
  increasing := pairwise_lines_ofLinesFrom 1 input
  diagnostics_increasing := pairwise_diagnostics_ofLinesFrom 1 input
  about := exists_about_ofLinesFrom 1 input

/-! ## Assembling the lines again -/

/-- The first line takes the first number, and the others are numbered from the next one on. -/
theorem renumbered_cons {number : Nat} {text : String} {word : UInt8} {problems : List Problem}
    {rest : Assembly} (hrest : ∀ diagnostic ∈ rest.diagnostics, diagnostic.line ≠ number)
    (first : Nat) :
    renumbered first (⟨[⟨number, text, word⟩],
        problems.map fun problem => ⟨number, text, problem⟩⟩ ++ rest) =
      ⟨[⟨first, text, word⟩], problems.map fun problem => ⟨first, text, problem⟩⟩ ++
        rest.renumbered (first + 1) := by
  refine congrArg₂ mk ?_ ?_
  · simp [List.mapIdx_cons, Nat.add_assoc, Nat.add_comm 1, renumbered]
  · simp only [diagnostics_append, lines_append, List.map_append, List.map_map, renumbered]
    refine congrArg₂ (· ++ ·) ?_ ?_
    · simp
    · refine List.map_congr_left fun diagnostic hdiagnostic => ?_
      have hne := (hrest diagnostic hdiagnostic).symm
      rw [List.map_singleton, List.singleton_append, List.idxOf_cons_ne _ hne]
      simp [Nat.add_assoc, Nat.add_comm 1]

-- Both numberings go through the same lines, but only the old one counts those without a token.
theorem ofLinesFrom_sources (first start : Nat) (input : List String) :
    ofLinesFrom start ((ofLinesFrom first input).lines.map (·.source)) =
      (ofLinesFrom first input).renumbered start := by
  induction input generalizing first start with
  | nil => rfl
  | cons line rest ih =>
      by_cases htokens : Token.ofLine line = []
      · rw [ofLinesFrom_cons_of_nil htokens]
        exact ih (first + 1) start
      · obtain ⟨word, problems, hline⟩ := exists_ofLine_eq htokens
        -- So the place of such a diagnostic is looked for behind the first line.
        have hlater : ∀ diagnostic ∈ (ofLinesFrom (first + 1) rest).diagnostics,
            diagnostic.line ≠ first := fun diagnostic hdiagnostic =>
          Nat.ne_of_gt (exists_line_of_mem_diagnostics hdiagnostic).1
        rw [ofLinesFrom, hline, renumbered_cons hlater, ← ih, lines_append, List.map_append,
          List.map_singleton, List.singleton_append, ofLinesFrom, ofLine_source, hline]

/-- The assembly of any lines represents them. The texts of its own lines are assembled to the same
words and the same diagnostics, with the lines numbered one after the other. -/
theorem ofLines_represents_input (input : List String) :
    (ofLines input).Represents input ∧
      ofLines ((ofLines input).lines.map (·.source)) = (ofLines input).renumbered 1 ∧
      (ofLines ((ofLines input).lines.map (·.source))).bytes = (ofLines input).bytes := by
  have hagain : ofLines ((ofLines input).lines.map (·.source)) = (ofLines input).renumbered 1 :=
    ofLinesFrom_sources 1 1 input
  refine ⟨represents_ofLines input, hagain, ?_⟩
  rw [hagain, bytes_renumbered]

/-- The second line has separators and a comment only, and the line feed in the third is a blank. -/
example : ofLines [" INC R1", " , ;", "\nNOT\nR1 "] =
    ⟨[⟨1, "INC R1", 0⟩, ⟨3, "NOT\nR1", 0xE8⟩],
      [⟨1, "INC R1", .warning (.unknownInstruction "INC")⟩]⟩ := by decide

end Assembly

end EightBit
