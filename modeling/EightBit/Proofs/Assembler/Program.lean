import EightBit.Assembler.Assembly
import EightBit.Proofs.Assembler.Tokens

/-!
# Programs line by line

What one line contributes to an assembly. The blanks at its ends make no difference to that.
-/

namespace EightBit

theorem Statement.ofLine_congr {left right : String}
    (htokens : Token.ofLine left = Token.ofLine right) :
    Statement.ofLine left = Statement.ofLine right := by
  simp only [Statement.ofLine, htokens]

theorem encodeLine_congr {left right : String}
    (htokens : Token.ofLine left = Token.ofLine right) : encodeLine left = encodeLine right := by
  rw [encodeLine, encodeLine, Statement.ofLine_congr htokens]

namespace Assembly

/-- The text of a line in an assembly. -/
def source (line : String) : String :=
  String.ofList (Text.trim line.toList)

theorem encodeLine_source (line : String) : encodeLine (source line) = encodeLine line := by
  apply encodeLine_congr
  rw [source, Token.ofLine_trim, String.ofList_toList]

theorem ofLine_of_none {number : Nat} {line : String} (hline : Statement.ofLine line = .ok none) :
    ofLine number line = ∅ := by
  have hencode : encodeLine (source line) = .ok none := by
    rw [encodeLine_source, encodeLine, hline]
    rfl
  rw [source] at hencode
  simp only [ofLine, hencode]

theorem ofLine_of_some {number : Nat} {line : String} {statement : Statement}
    (hline : Statement.ofLine line = .ok (some statement)) :
    ofLine number line = ⟨[⟨number, source line, statement.word⟩],
      statement.warnings.map fun warning => ⟨number, source line, .warning warning⟩⟩ := by
  have hencode : encodeLine (source line) = .ok (some statement.encode) := by
    rw [encodeLine_source, encodeLine, hline]
    rfl
  rw [source] at hencode
  simp only [ofLine, hencode, source, Statement.encode]

theorem ofLine_of_error {number : Nat} {line : String} {error : LineError}
    (hline : Statement.ofLine line = .error error) :
    ofLine number line =
      ⟨[⟨number, source line, nop⟩], [⟨number, source line, .error error⟩]⟩ := by
  have hencode : encodeLine (source line) = .error error := by
    rw [encodeLine_source, encodeLine, hline]
    rfl
  rw [source] at hencode
  simp only [ofLine, hencode, source]

/-- A word is the `nop` of an error or the word of a statement. -/
theorem mem_bytes_ofLine {number : Nat} {line : String} {word : UInt8}
    (hword : word ∈ (ofLine number line).bytes) :
    word = nop ∨ ∃ statement, Statement.ofLine line = .ok (some statement) ∧
      word = statement.word := by
  cases hline : Statement.ofLine line with
  | error error =>
      rw [ofLine_of_error hline] at hword
      exact Or.inl (List.mem_singleton.mp hword)
  | ok found =>
      cases found with
      | none =>
          rw [ofLine_of_none hline] at hword
          exact absurd hword List.not_mem_nil
      | some statement =>
          rw [ofLine_of_some hline] at hword
          exact Or.inr ⟨statement, rfl, List.mem_singleton.mp hword⟩

/-- A line without diagnostics has no word or that of a statement without warnings. -/
theorem bytes_ofLine_of_clean {number : Nat} {line : String}
    (hclean : (ofLine number line).diagnostics = []) :
    Statement.ofLine line = .ok none ∧ (ofLine number line).bytes = [] ∨
      ∃ statement, Statement.ofLine line = .ok (some statement) ∧ statement.warnings = [] ∧
        (ofLine number line).bytes = [statement.word] := by
  cases hline : Statement.ofLine line with
  | error error =>
      rw [ofLine_of_error hline] at hclean
      exact absurd hclean (List.cons_ne_nil _ _)
  | ok found =>
      cases found with
      | none =>
          left
          rw [ofLine_of_none hline]
          exact ⟨rfl, rfl⟩
      | some statement =>
          right
          rw [ofLine_of_some hline] at hclean ⊢
          exact ⟨statement, rfl, List.map_eq_nil_iff.mp hclean, rfl⟩

@[simp] theorem bytes_empty : (∅ : Assembly).bytes = [] := rfl

@[simp] theorem bytes_append (a b : Assembly) : (a ++ b).bytes = a.bytes ++ b.bytes := by
  simp [bytes]

end Assembly

end EightBit
