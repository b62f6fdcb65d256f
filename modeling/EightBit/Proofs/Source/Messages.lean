import EightBit.Proofs.Assembler.Program
import EightBit.Proofs.Source.Aliasing
import EightBit.Proofs.Source.Outcome
import EightBit.Proofs.Text.Lines

/-!
# Diagnostics as lines of text

A diagnostic shows its line and may quote a token of it, and neither has a line feed in it, so its
message is one line of text. There is one diagnostic at most for a line, and they come in the order
of the lines.
-/

namespace EightBit

/-! ## Line feeds in tokens -/

theorem Token.not_mem_of_runs {chars : List Char} {tokens : List Token}
    (hruns : Token.Runs chars tokens) {c : Char} (hc : Token.isSeparator c = true) :
    ∀ token ∈ tokens, c ∉ token.toList := by
  induction hruns with
  | nil => exact List.forall_mem_nil _
  | separator _ _ ih => exact ih
  | run _ hchars _ _ ih =>
      rw [List.forall_mem_cons, String.toList_ofList]
      refine ⟨fun hmem => ?_, ih⟩
      rw [hchars c hmem] at hc
      cases hc

theorem Token.feed_not_mem {line : String} {token : Token} (htoken : token ∈ Token.ofLine line) :
    '\n' ∉ token.toList := by
  rw [Token.ofLine_eq_words] at htoken
  exact Token.not_mem_of_runs (Token.runs_iff.mpr rfl) (by decide) token htoken

namespace Text

theorem caseExpansions_ne_feed : ∀ entry ∈ caseExpansions, ∀ code ∈ entry.2,
    Char.ofNat code ≠ '\n' := by
  decide +kernel

/-- Only a line feed has one in its upper-case form. -/
theorem eq_of_feed_mem_upperChar {c : Char} (hmem : '\n' ∈ upperChar c) : c = '\n' := by
  rcases Nat.lt_or_ge c.toNat 128 with hascii | houtside
  · rw [upperChar_of_lt hascii, List.mem_singleton] at hmem
    exact forall_ascii (P := fun c => '\n' = c.toUpper → c = '\n') (by decide +kernel) hascii hmem
  · unfold upperChar at hmem
    split at hmem
    · rename_i image hfound
      obtain ⟨run, hrun, himage⟩ := List.exists_of_findSome?_eq_some hfound
      rw [List.mem_singleton] at hmem
      have hforeign := image?_outside hrun houtside himage
      rw [← hmem] at hforeign
      exact absurd hforeign (by decide)
    · split at hmem
      · rename_i codes hfound
        obtain ⟨before, after, hentries, _⟩ := List.lookup_eq_some_iff.mp hfound
        obtain ⟨code, hcode, hfeed⟩ := List.mem_map.mp hmem
        have hentry : (c.toNat, codes) ∈ caseExpansions := by
          rw [hentries]
          exact List.mem_append_right before List.mem_cons_self
        exact absurd hfeed (caseExpansions_ne_feed _ hentry code hcode)
      · exact (List.mem_singleton.mp hmem).symm

theorem feed_not_mem_upper {s : String} (hs : '\n' ∉ s.toList) : '\n' ∉ (upper s).toList := by
  rw [upper, String.toList_ofList]
  intro hmem
  obtain ⟨c, hc, hfeed⟩ := List.mem_flatMap.mp hmem
  obtain rfl := eq_of_feed_mem_upperChar hfeed
  exact hs hc

end Text

/-! ## What a diagnostic quotes -/

def LineError.quoted : LineError → List String
  | .unknownRegister token | .invalidNumber token => [token]
  | .missingOperand mnemonic => [mnemonic]
  | .unexpectedOperand mnemonic operand => [mnemonic, operand]

def Warning.quoted : Warning → List String
  | .immediateTruncated value _ | .targetTruncated value _ => [value]
  | .unknownInstruction mnemonic => [mnemonic]
  | .threeOperands _ | .aliasedAsJump .. => []

def Problem.quoted : Problem → List String
  | .warning cause => cause.quoted
  | .error cause => cause.quoted

/-- The text is a token as it is written, in upper case, or without the `#` of a number. -/
def Token.Quotable (tokens : List Token) (text : String) : Prop :=
  ∃ token ∈ tokens, text = token ∨ text = Text.upper token ∨
    text = String.ofList (Literal.unmarked token.toList)

theorem Token.Quotable.mono {tokens more : List Token} {text : String}
    (hquotable : Token.Quotable tokens text) (hmore : tokens ⊆ more) :
    Token.Quotable more text := by
  obtain ⟨token, htoken, htext⟩ := hquotable
  exact ⟨token, hmore htoken, htext⟩

theorem Literal.mem_of_mem_unmarked {chars : List Char} {c : Char}
    (hc : c ∈ Literal.unmarked chars) : c ∈ chars := by
  unfold Literal.unmarked at hc
  split at hc
  · exact List.mem_cons_of_mem _ hc
  · exact hc

theorem Token.Quotable.feed_not_mem {line text : String}
    (hquotable : Token.Quotable (Token.ofLine line) text) : '\n' ∉ text.toList := by
  obtain ⟨token, htoken, htext⟩ := hquotable
  have hplain := Token.feed_not_mem htoken
  rcases htext with rfl | rfl | rfl
  · exact hplain
  · exact Text.feed_not_mem_upper hplain
  · rw [String.toList_ofList]
    exact fun hmem => hplain (Literal.mem_of_mem_unmarked hmem)

theorem Slot.quoted_fault (slot : Slot) (operand : Token) :
    (slot.fault operand).quoted = [operand] := by
  cases slot with
  | register => rfl
  | number => rfl
  | source =>
      rw [Slot.fault]
      split <;> rfl

theorem Slot.quotable_of_firstMisfit {slots : List Slot} {operands : List Token}
    {error : LineError} (hmisfit : Slot.FirstMisfit slots operands error) :
    ∀ text ∈ error.quoted, Token.Quotable operands text := by
  induction hmisfit with
  | here _ =>
      intro text htext
      rw [Slot.quoted_fault, List.mem_singleton] at htext
      exact ⟨_, List.mem_cons_self, Or.inl htext⟩
  | later _ _ ih =>
      intro text htext
      exact (ih text htext).mono (List.subset_cons_self _ _)

theorem Intent.eq_of_quoted (intent : Intent) (digits : String) :
    ∀ warning ∈ intent.warnings digits, ∀ text ∈ warning.quoted, text = digits := by
  fun_cases Intent.warnings digits intent <;> simp [Warning.quoted]

/-- What is quoted of a line is quoted from its tokens. -/
theorem Outcome.quotable_of_error {tokens : List Token} {error : LineError}
    (houtcome : Outcome tokens (.error error)) :
    ∀ text ∈ error.quoted, Token.Quotable tokens text := by
  intro text htext
  cases houtcome with
  | missing _ _ =>
      rw [LineError.quoted, List.mem_singleton] at htext
      exact ⟨_, List.mem_cons_self, Or.inr (Or.inl htext)⟩
  | surplus _ _ _ =>
      rw [LineError.quoted, List.mem_pair] at htext
      rcases htext with hname | hextra
      · exact ⟨_, List.mem_cons_self, Or.inr (Or.inl hname)⟩
      · refine ⟨_, List.mem_cons_of_mem _ (List.mem_append_right _ List.mem_cons_self), ?_⟩
        exact Or.inl hextra
  | misfit _ _ hmisfit =>
      exact (Slot.quotable_of_firstMisfit hmisfit text htext).mono (List.subset_cons_self _ _)

theorem Outcome.quotable_of_ok {tokens : List Token} {encoding : Encoding}
    (houtcome : Outcome tokens (.ok (some encoding))) {warning : Warning}
    (hwarning : warning ∈ encoding.warnings) :
    ∀ text ∈ warning.quoted, Token.Quotable tokens text := by
  intro text htext
  cases houtcome with
  | unknown _ =>
      obtain rfl := List.mem_singleton.mp hwarning
      rw [Warning.quoted, List.mem_singleton] at htext
      exact ⟨_, List.mem_cons_self, Or.inr (Or.inl htext)⟩
  | threeOperands _ _ =>
      obtain rfl := List.mem_singleton.mp hwarning
      exact absurd htext List.not_mem_nil
  | accepted _ hlast =>
      refine ⟨_, List.mem_of_getLast? hlast, ?_⟩
      exact Or.inr (Or.inr (Intent.eq_of_quoted _ _ warning hwarning text htext))

/-! ## Messages -/

theorem Numeral.feed_not_mem_decimal (n : Nat) : '\n' ∉ (Numeral.decimal n).toList :=
  not_mem_decimal (by decide) n

theorem Opcode.feed_not_mem_mnemonic (opcode : Opcode) : '\n' ∉ opcode.mnemonic.toList := by
  cases opcode <;> decide

theorem Condition.feed_not_mem_mnemonic (condition : Condition) :
    '\n' ∉ condition.mnemonic.toList := by
  cases condition <;> decide

-- The messages are written out here because unfolding them evaluates their literal texts.
theorem LineError.feed_not_mem_message {error : LineError}
    (hquoted : ∀ text ∈ error.quoted, '\n' ∉ text.toList) : '\n' ∉ error.message.toList := by
  cases error with
  | unknownRegister token =>
      have htoken := hquoted token (List.mem_singleton_self _)
      change '\n' ∉ ("unknown register '" ++ token ++ "', expected R0-R3").toList
      simp [htoken]
  | missingOperand mnemonic =>
      have hname := hquoted mnemonic (List.mem_singleton_self _)
      change '\n' ∉ (mnemonic ++ " is missing an operand").toList
      simp [hname]
  | unexpectedOperand mnemonic operand =>
      have hname := hquoted mnemonic List.mem_cons_self
      have hoperand := hquoted operand (List.mem_cons_of_mem _ List.mem_cons_self)
      change '\n' ∉ ("unexpected operand '" ++ operand ++ "' for " ++ mnemonic).toList
      simp [hname, hoperand]
  | invalidNumber token =>
      have htoken := hquoted token (List.mem_singleton_self _)
      change '\n' ∉ ("malformed number '" ++ token ++ "'").toList
      simp [htoken]

theorem Warning.feed_not_mem_message {warning : Warning}
    (hquoted : ∀ text ∈ warning.quoted, '\n' ∉ text.toList) :
    '\n' ∉ warning.message.toList := by
  cases warning with
  | immediateTruncated value truncated =>
      have hvalue := hquoted value (List.mem_singleton_self _)
      have hnumber := Numeral.feed_not_mem_decimal truncated.toNat
      change '\n' ∉ ("immediate value " ++ value ++ " truncated to " ++
        Numeral.decimal truncated.toNat).toList
      simp [hvalue, hnumber]
  | targetTruncated value truncated =>
      have hvalue := hquoted value (List.mem_singleton_self _)
      have hnumber := Numeral.feed_not_mem_decimal truncated.toNat
      change '\n' ∉ ("jump address " ++ value ++ " truncated to " ++
        Numeral.decimal truncated.toNat).toList
      simp [hvalue, hnumber]
  | threeOperands opcode =>
      have hname := opcode.feed_not_mem_mnemonic
      change '\n' ∉ ("three-operand " ++ opcode.mnemonic ++
        " not directly supported, assembled as NOP (use MOV first)").toList
      simp [hname]
  | unknownInstruction mnemonic =>
      have hname := hquoted mnemonic (List.mem_singleton_self _)
      change '\n' ∉ ("unknown instruction '" ++ mnemonic ++ "', assembled as NOP").toList
      simp [hname]
  | aliasedAsJump opcode jump =>
      have hname := opcode.feed_not_mem_mnemonic
      have hjump := jump.feed_not_mem_mnemonic
      change '\n' ∉ (opcode.mnemonic ++ " with destination R3 shares the " ++ jump.mnemonic ++
        " encoding and executes as " ++ jump.mnemonic).toList
      simp [hname, hjump]

theorem Diagnostic.feed_not_mem_message {diagnostic : Diagnostic}
    (hsource : '\n' ∉ diagnostic.source.toList)
    (hquoted : ∀ text ∈ diagnostic.problem.quoted, '\n' ∉ text.toList) :
    '\n' ∉ diagnostic.message.toList := by
  have hproblem : '\n' ∉ diagnostic.problem.message.toList := by
    cases hkind : diagnostic.problem with
    | warning cause =>
        rw [hkind] at hquoted
        simpa [Problem.message] using Warning.feed_not_mem_message hquoted
    | error cause =>
        rw [hkind] at hquoted
        simpa [Problem.message] using LineError.feed_not_mem_message hquoted
  simp [Diagnostic.message, hsource, hproblem, Numeral.feed_not_mem_decimal]

/-! ## The diagnostics of a program -/

namespace Assembly

/-- A diagnostic has the number and the text of its line, and quotes its tokens. -/
theorem of_mem_diagnostics_ofLine {number : Nat} {line : String} {diagnostic : Diagnostic}
    (hmem : diagnostic ∈ (ofLine number line).diagnostics) :
    diagnostic.line = number ∧ diagnostic.source = source line ∧
      ∀ text ∈ diagnostic.problem.quoted, Token.Quotable (Token.ofLine line) text := by
  have houtcome := Outcome.outcome_encodeLine line
  cases hline : Statement.ofLine line with
  | error error =>
      rw [ofLine_of_error hline] at hmem
      obtain rfl := List.mem_singleton.mp hmem
      have hencode : encodeLine line = .error error := by
        rw [encodeLine, hline]
        rfl
      rw [hencode] at houtcome
      exact ⟨rfl, rfl, houtcome.quotable_of_error⟩
  | ok found =>
      cases found with
      | none =>
          rw [ofLine_of_none hline] at hmem
          exact absurd hmem List.not_mem_nil
      | some statement =>
          rw [ofLine_of_some hline] at hmem
          obtain ⟨warning, hwarning, rfl⟩ := List.mem_map.mp hmem
          have hencode : encodeLine line = .ok (some statement.encode) := by
            rw [encodeLine, hline]
            rfl
          rw [hencode] at houtcome
          exact ⟨rfl, rfl, houtcome.quotable_of_ok hwarning⟩

theorem length_diagnostics_ofLine_le (number : Nat) (line : String) :
    (ofLine number line).diagnostics.length ≤ 1 := by
  cases hline : Statement.ofLine line with
  | error error =>
      rw [ofLine_of_error hline]
      exact Nat.le_refl 1
  | ok found =>
      cases found with
      | none =>
          rw [ofLine_of_none hline]
          exact Nat.zero_le 1
      | some statement =>
          rw [ofLine_of_some hline, List.length_map]
          exact statement.length_warnings_le

theorem exists_line_of_mem_diagnostics {first : Nat} {lines : List String}
    {diagnostic : Diagnostic} (hmem : diagnostic ∈ (ofLinesFrom first lines).diagnostics) :
    first ≤ diagnostic.line ∧ ∃ line ∈ lines, ∃ number,
      diagnostic ∈ (ofLine number line).diagnostics := by
  induction lines generalizing first with
  | nil => exact absurd hmem List.not_mem_nil
  | cons line rest ih =>
      rw [ofLinesFrom, diagnostics_append, List.mem_append] at hmem
      rcases hmem with hline | hrest
      · refine ⟨Nat.le_of_eq (of_mem_diagnostics_ofLine hline).1.symm, line, ?_, first, hline⟩
        exact List.mem_cons_self
      · obtain ⟨hfirst, other, hother, hnumber⟩ := ih hrest
        exact ⟨Nat.le_of_succ_le hfirst, other, List.mem_cons_of_mem line hother, hnumber⟩

/-- The diagnostics come in the order of their lines, one at most for a line. -/
theorem pairwise_diagnostics_ofLinesFrom (first : Nat) (lines : List String) :
    (ofLinesFrom first lines).diagnostics.Pairwise (·.line < ·.line) := by
  induction lines generalizing first with
  | nil => exact .nil
  | cons line rest ih =>
      rw [ofLinesFrom, diagnostics_append, List.pairwise_append]
      refine ⟨?_, ih (first + 1), ?_⟩
      · have hlength := length_diagnostics_ofLine_le first line
        rcases Nat.le_one_iff_eq_zero_or_eq_one.mp hlength with hnone | hone
        · rw [List.length_eq_zero_iff.mp hnone]
          exact .nil
        · obtain ⟨diagnostic, hsingle⟩ := List.length_eq_one_iff.mp hone
          rw [hsingle]
          exact List.pairwise_singleton _ diagnostic
      · intro diagnostic hdiagnostic other hother
        rw [(of_mem_diagnostics_ofLine hdiagnostic).1]
        exact (exists_line_of_mem_diagnostics hother).1

/-- The message of a diagnostic of a text is one line. -/
theorem feed_not_mem_message {text : String} {diagnostic : Diagnostic}
    (hmem : diagnostic ∈ (ofText text).diagnostics) : '\n' ∉ diagnostic.message.toList := by
  obtain ⟨_, line, hline, number, hdiagnostic⟩ := exists_line_of_mem_diagnostics hmem
  obtain ⟨chars, hchars, rfl⟩ := List.mem_map.mp hline
  obtain ⟨_, hsource, hquoted⟩ := of_mem_diagnostics_ofLine hdiagnostic
  refine Diagnostic.feed_not_mem_message ?_ fun text htext => (hquoted text htext).feed_not_mem
  rw [hsource, source, String.toList_ofList, String.toList_ofList]
  exact fun hfeed => Text.feed_not_mem_lines hchars (Text.trim_subset chars hfeed)

end Assembly

end EightBit
