import EightBit.Proofs.Isa.Codec

/-!
# What a word keeps of an instruction

The members of an instruction may be too wide for their fields, and an operation may have the opcode
and the destination of a jump. Both are lost in the word: it is also the word of the reduced
instruction, whose members are what their fields hold, and of the jump in the place of such an
operation. That is what is decoded, so a word gives its instruction back exactly when there was
nothing to lose.
-/

namespace EightBit

namespace Fields

/-- Each field holds its own member, modulo the number of its values. -/
theorem cut_eq_mod (fields : Fields) :
    fields.cut = ⟨fields.opcode % 8, fields.dest % 4, fields.operand % 8⟩ := by
  apply ext_toNat
  · rw [toNat_opcode_cut, UInt8.toNat_mod]
    rfl
  · rw [toNat_dest_cut, UInt8.toNat_mod]
    rfl
  · rw [toNat_operand_cut, UInt8.toNat_mod]
    rfl

/-- What is cut off a member makes no difference to the fields. -/
theorem cut_mod (opcode dest operand : UInt8) :
    cut ⟨opcode, dest % 4, operand % 8⟩ = cut ⟨opcode, dest, operand⟩ := by
  apply ext_toNat
  · rw [toNat_opcode_cut, toNat_opcode_cut]
  · rw [toNat_dest_cut, toNat_dest_cut, UInt8.toNat_mod]
    exact Nat.mod_mod dest.toNat 4
  · rw [toNat_operand_cut, toNat_operand_cut, UInt8.toNat_mod]
    exact Nat.mod_mod operand.toNat 8

end Fields

theorem Opcode.borrower?_eq_none_iff {opcode : Opcode} :
    opcode.borrower? = none ↔ opcode ∉ [.or, .xor, .cmp] := by
  cases opcode <;> decide

namespace Instruction

/-- Every member is a value of its field. -/
def InRange : Instruction → Prop
  | .operation _ dest source => dest.toNat < 4 ∧ source.toNat < 8
  | .jump _ target => target.toNat < 8

/-- The instruction is an operation, and its destination and its opcode are those of a jump. -/
def Aliased : Instruction → Prop
  | .operation opcode dest _ => dest = 3 ∧ opcode ∈ [.or, .xor, .cmp]
  | .jump _ _ => False

/-- The instruction with every member reduced to a value of its field. -/
def reduced : Instruction → Instruction
  | .operation opcode dest source => .operation opcode (dest % 4) (source % 8)
  | .jump condition target => .jump condition (target % 8)

/-- The jump in the place of an operation with its opcode and its destination. -/
def unaliased : Instruction → Instruction
  | .operation .or 3 source => .jump .always source
  | .operation .xor 3 source => .jump .zero source
  | .operation .cmp 3 source => .jump .nonzero source
  | instruction => instruction

theorem valid_iff {instruction : Instruction} :
    instruction.Valid ↔ instruction.InRange ∧ ¬instruction.Aliased := by
  cases instruction with
  | operation opcode dest source =>
      rw [Valid, Opcode.jump?_eq_none_iff, Opcode.borrower?_eq_none_iff, InRange, Aliased, not_and,
        and_assoc]
      rfl
  | jump condition target => exact (and_iff_left not_false).symm

theorem inRange_reduced (instruction : Instruction) : instruction.reduced.InRange := by
  cases instruction with
  | operation opcode dest source =>
      exact ⟨Nat.mod_lt dest.toNat (by decide), Nat.mod_lt source.toNat (by decide)⟩
  | jump condition target => exact Nat.mod_lt target.toNat (by decide)

/-- The word does not tell what is cut off. -/
theorem encode_reduced (instruction : Instruction) :
    instruction.reduced.encode = instruction.encode := by
  cases instruction with
  | operation opcode dest source =>
      exact congrArg Fields.toWord (Fields.cut_mod opcode.bits dest source)
  | jump condition target =>
      exact congrArg Fields.toWord (Fields.cut_mod condition.opcode.bits Opcode.jumpMark target)

/-- The word does not tell an operation from the jump in its place. -/
theorem encode_unaliased (instruction : Instruction) :
    instruction.unaliased.encode = instruction.encode := by
  fun_cases unaliased instruction <;> rfl

/-- An instruction in range is valid as soon as it is no longer aliased. -/
theorem valid_unaliased {instruction : Instruction} (hrange : instruction.InRange) :
    instruction.unaliased.Valid := by
  fun_cases unaliased instruction with
  | case1 source => exact hrange.2
  | case2 source => exact hrange.2
  | case3 source => exact hrange.2
  | case4 _ hor hxor hcmp =>
      -- The instruction is left as it is, and an aliased one would have met a row above.
      refine valid_iff.mpr ⟨hrange, ?_⟩
      cases instruction with
      | jump condition target => exact not_false
      | operation opcode dest source =>
          rintro ⟨rfl, hopcode⟩
          cases opcode with
          | or => exact hor source rfl
          | xor => exact hxor source rfl
          | cmp => exact hcmp source rfl
          | _ => exact absurd hopcode (by decide)

/-- What is decoded from the word of an instruction. -/
theorem decode_encode_eq (instruction : Instruction) :
    decode instruction.encode = instruction.reduced.unaliased := by
  have hvalid : instruction.reduced.unaliased.Valid :=
    valid_unaliased (inRange_reduced instruction)
  have hword : instruction.reduced.unaliased.encode = instruction.encode := by
    rw [encode_unaliased, encode_reduced]
  rw [← hword, decode_encode hvalid]

theorem decode_encode_eq_self_iff {instruction : Instruction} :
    decode instruction.encode = instruction ↔ instruction.Valid := by
  constructor
  · intro hsame
    rw [← hsame]
    exact decode_valid instruction.encode
  · exact decode_encode

/-- Fields come back from their word with every member cut to its own field. An instruction comes
back from its word exactly when its members are in range and it is not aliased. Any other comes back
reduced, and as a jump where the reduced one is aliased, and what comes back has the same word. -/
theorem codec_exact :
    (∀ fields : Fields, Fields.ofWord fields.toWord = fields.cut ∧
        fields.cut = ⟨fields.opcode % 8, fields.dest % 4, fields.operand % 8⟩) ∧
      ∀ instruction : Instruction,
        (decode instruction.encode = instruction ↔
          instruction.InRange ∧ ¬instruction.Aliased) ∧
        decode instruction.encode = instruction.reduced.unaliased ∧
        (decode instruction.encode).encode = instruction.encode := by
  refine ⟨fun fields => ⟨Fields.ofWord_toWord fields, fields.cut_eq_mod⟩, fun instruction => ?_⟩
  refine ⟨?_, decode_encode_eq instruction, encode_decode instruction.encode⟩
  rw [decode_encode_eq_self_iff, valid_iff]

/-- The destination `7` is cut to that of a jump, and the operand `9` to its target. -/
example : decode (encode (.operation .or 7 9)) = .jump .always 1 := by decide

end Instruction

end EightBit
