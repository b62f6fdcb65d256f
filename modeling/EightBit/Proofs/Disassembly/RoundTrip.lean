import EightBit.Proofs.Disassembly.Reading

/-!
# Assembling a disassembly

The texts of the instructions of any words are assembled without diagnostics, one word each. The
words of an assembly are those with tidy instructions, and they come back unchanged.
-/

namespace EightBit

/-! ## The words of an assembly -/

theorem Literal.toNat_masked_le (literal : Literal) (mask : UInt32) :
    (literal.masked mask).toNat ≤ mask.toNat := by
  rw [masked, UInt32.toNat_toUInt8, UInt32.toNat_and]
  exact Nat.le_trans (Nat.mod_le _ _) Nat.and_le_right

theorem Instruction.tidy_decode_encode {instruction : Instruction} (hvalid : instruction.Valid)
    (htidy : instruction.Tidy) : (decode instruction.encode).Tidy := by
  rwa [decode_encode hvalid]

namespace Statement

theorem tidy_decode_nop : (Instruction.decode EightBit.nop).Tidy := by
  change (UInt8.toNat _) < 4
  decide

theorem tidy_registerWord {opcode : Opcode} {dest source : Register}
    (htidy : (Instruction.operation opcode (.ofNat dest) (.ofNat source)).Tidy) :
    (Instruction.decode (registerWord opcode dest source)).Tidy := by
  cases hjump : opcode.jump? (.ofNat dest) with
  | none => rwa [decode_registerWord hjump]
  | some condition =>
      rw [decode_registerWord_of_jump? hjump]
      trivial

/-- The instruction of the word of a statement is tidy, whatever there is to say about the
statement. -/
theorem tidy_decode_word {line : String} {statement : Statement}
    (hline : ofLine line = .ok (some statement)) :
    (Instruction.decode statement.word).Tidy := by
  obtain ⟨first, operands, _, ⟨mnemonic, hproper, _, hparses⟩ | ⟨_, rfl⟩⟩ :=
    ofLine_eq_some_iff.mp hline
  · cases hparses with
    | nop => exact tidy_decode_nop
    | @moveNumber _ _ dest value =>
        have hmasked := value.toNat_masked_le immediateMask
        have hfield : (value.masked immediateMask + Instruction.immediateBase).toNat < 8 := by
          change (value.masked immediateMask).toNat ≤ 3 at hmasked
          rw [UInt8.toNat_add]
          change ((value.masked immediateMask).toNat + 4) % 2 ^ 8 < 8
          omega
        have hjump : Opcode.mov.jump? (.ofNat dest) = none := Opcode.jump?_of_borrower? rfl _
        exact Instruction.tidy_decode_encode ⟨dest.toNat_ofNat_lt, hfield, hjump⟩ trivial
    | moveRegister => exact tidy_registerWord trivial
    | @complement _ dest =>
        have hjump : Opcode.not.jump? (.ofNat dest) = none := Opcode.jump?_of_borrower? rfl _
        exact Instruction.tidy_decode_encode ⟨dest.toNat_ofNat_lt, by decide, hjump⟩ rfl
    | @compare _ _ _ source => exact tidy_registerWord (source.toNat_ofNat_lt)
    | @binary _ _ _ _ source =>
        obtain ⟨operator, rfl⟩ := Operator.isBinary_iff.mp hproper
        exact tidy_registerWord (Instruction.tidy_compute_iff.mpr (source.toNat_ofNat_lt))
    | threeOperands => exact tidy_decode_nop
    | @jump _ _ target =>
        have hmasked := target.toNat_masked_le targetMask
        change (target.masked targetMask).toNat ≤ 7 at hmasked
        exact Instruction.tidy_decode_encode (Nat.lt_succ_of_le hmasked) trivial
  · exact tidy_decode_nop

end Statement

theorem Assembly.tidy_of_mem_bytes {first : Nat} {lines : List String} {word : UInt8}
    (hword : word ∈ (ofLinesFrom first lines).bytes) : (Instruction.decode word).Tidy := by
  induction lines generalizing first with
  | nil => simp [ofLinesFrom] at hword
  | cons line rest ih =>
      rw [ofLinesFrom, bytes_append, List.mem_append] at hword
      rcases hword with hline | hrest
      · rcases mem_bytes_ofLine hline with rfl | ⟨statement, hstatement, rfl⟩
        · exact Statement.tidy_decode_nop
        · exact Statement.tidy_decode_word hstatement
      · exact ih hrest

/-! ## Texts of words -/

namespace Instruction

/-- The word that the text of a word is assembled to. -/
def reassembled (word : UInt8) : UInt8 :=
  (decode word).intent.instruction.encode

def texts (words : List UInt8) : List String :=
  words.map fun word => (decode word).text

/-- The texts of the instructions of words, a line each. -/
def disassembly (words : List UInt8) : String :=
  "\n".intercalate (texts words)

theorem decode_reassembled (word : UInt8) :
    decode (reassembled word) = (decode word).intent.instruction :=
  decode_encode (Intent.instruction_valid (fits_intent (decode_valid word)))

theorem reassembled_of_tidy {word : UInt8} (htidy : (decode word).Tidy) :
    reassembled word = word := by
  rw [reassembled, instruction_intent (decode_valid word) htidy, encode_decode]

end Instruction

namespace Assembly

open Instruction

/-- Texts of instructions are assembled without diagnostics. -/
theorem ofLinesFrom_texts (first : Nat) (words : List UInt8) :
    (ofLinesFrom first (texts words)).diagnostics = [] ∧
      (ofLinesFrom first (texts words)).bytes = words.map reassembled := by
  induction words generalizing first with
  | nil => exact ⟨rfl, rfl⟩
  | cons word rest ih =>
      obtain ⟨hclean, hbytes⟩ := ih (first + 1)
      obtain ⟨statement, hline, hencode⟩ := ofLine_text (decode_valid word)
      have hword : statement.word = reassembled word := congrArg Encoding.word hencode
      have hwarnings : statement.warnings = [] := congrArg Encoding.warnings hencode
      rw [texts, List.map_cons, ofLinesFrom, ofLine_of_some hline, hword, hwarnings]
      refine ⟨hclean, ?_⟩
      rw [bytes_append]
      exact congrArg (reassembled word :: ·) hbytes

theorem ofText_disassembly_eq (words : List UInt8) :
    ofText (disassembly words) = ofLines (texts words) := by
  rw [ofText, disassembly, Text.lines_intercalate_toList]
  intro line hline
  obtain ⟨word, _, rfl⟩ := List.mem_map.mp hline
  exact solid_text (decode_valid word)

/-- The disassembly of tidy words is assembled to the same words. -/
theorem bytes_disassembly_of_tidy {words : List UInt8}
    (htidy : ∀ word ∈ words, (decode word).Tidy) :
    (ofText (disassembly words)).bytes = words := by
  rw [ofText_disassembly_eq, ofLines, (ofLinesFrom_texts 1 words).2]
  refine (List.map_congr_left ?_).trans (List.map_id words)
  intro word hword
  exact reassembled_of_tidy (htidy word hword)

/-- Words are those of some text exactly when all their instructions are tidy. -/
theorem exists_bytes_ofText_iff {words : List UInt8} :
    (∃ text, (ofText text).bytes = words) ↔ ∀ word ∈ words, (decode word).Tidy := by
  constructor
  · rintro ⟨text, rfl⟩ word hword
    exact tidy_of_mem_bytes hword
  · intro htidy
    exact ⟨disassembly words, bytes_disassembly_of_tidy htidy⟩

/-- Whatever a text is, the disassembly of its words is assembled to the same words without
diagnostics, and so is the text of each of them. -/
theorem ofText_disassembly (text : String) :
    (ofText (disassembly (ofText text).bytes)).diagnostics = [] ∧
      (ofText (disassembly (ofText text).bytes)).bytes = (ofText text).bytes ∧
      ∀ word ∈ (ofText text).bytes, encodeLine (decode word).text = .ok (some ⟨word, []⟩) := by
  refine ⟨?_, ?_, ?_⟩
  · rw [ofText_disassembly_eq]
    exact (ofLinesFrom_texts 1 _).1
  · exact bytes_disassembly_of_tidy fun word hword => tidy_of_mem_bytes hword
  · intro word hword
    obtain ⟨statement, hline, hencode⟩ := ofLine_text (decode_valid word)
    have hsame := reassembled_of_tidy (tidy_of_mem_bytes hword)
    rw [reassembled] at hsame
    rw [hsame] at hencode
    rw [encodeLine, hline, ← hencode]
    rfl

end Assembly

end EightBit
