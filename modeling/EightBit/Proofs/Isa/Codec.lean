import EightBit.Isa.Instruction
import Mathlib.Tactic.IntervalCases

/-!
# Words and instructions

Cutting a word into fields and putting fields together undo each other as far as the fields hold
what fits into them, and so do decoding and encoding. What a word can be decoded to is `Valid`, and
every valid instruction is decoded from its own word.
-/

namespace EightBit

namespace Fields

theorem toNat_opcode_cut (fields : Fields) :
    fields.cut.opcode.toNat = fields.opcode.toNat % 8 := by
  simp only [cut, UInt8.toNat_and]
  exact Nat.and_two_pow_sub_one_eq_mod fields.opcode.toNat 3

theorem toNat_dest_cut (fields : Fields) :
    fields.cut.dest.toNat = fields.dest.toNat % 4 := by
  simp only [cut, UInt8.toNat_and]
  exact Nat.and_two_pow_sub_one_eq_mod fields.dest.toNat 2

theorem toNat_operand_cut (fields : Fields) :
    fields.cut.operand.toNat = fields.operand.toNat % 8 := by
  simp only [cut, UInt8.toNat_and]
  exact Nat.and_two_pow_sub_one_eq_mod fields.operand.toNat 3

/-- The word of the fields as a number: no field reaches into the place of another. -/
theorem toNat_toWord (fields : Fields) :
    fields.toWord.toNat =
      fields.opcode.toNat % 8 * 32 + (fields.dest.toNat % 4 * 8 + fields.operand.toNat % 8) := by
  have hoperand : fields.operand.toNat % 8 < 2 ^ 3 := Nat.mod_lt _ (by decide)
  have hlow : (fields.dest.toNat % 4) <<< 3 + fields.operand.toNat % 8 < 2 ^ 5 := by
    rw [Nat.shiftLeft_eq]
    omega
  have hdest : (fields.cut.dest <<< 3).toNat = (fields.dest.toNat % 4) <<< 3 := by
    rw [UInt8.toNat_shiftLeft, toNat_dest_cut]
    refine Nat.mod_eq_of_lt ?_
    rw [Nat.shiftLeft_eq]
    change _ * 2 ^ 3 < _
    omega
  have hopcode : (fields.cut.opcode <<< 5).toNat = (fields.opcode.toNat % 8) <<< 5 := by
    rw [UInt8.toNat_shiftLeft, toNat_opcode_cut]
    refine Nat.mod_eq_of_lt ?_
    rw [Nat.shiftLeft_eq]
    change _ * 2 ^ 5 < _
    omega
  rw [toWord, UInt8.toNat_or, UInt8.toNat_or, hopcode, hdest, toNat_operand_cut, Nat.or_assoc,
    ← Nat.shiftLeft_add_eq_or_of_lt hoperand, ← Nat.shiftLeft_add_eq_or_of_lt hlow,
    Nat.shiftLeft_eq, Nat.shiftLeft_eq]

theorem toNat_opcode_ofWord (word : UInt8) : (ofWord word).opcode.toNat = word.toNat / 32 := by
  have hword := word.toNat_lt
  rw [ofWord, toNat_opcode_cut, UInt8.toNat_shiftRight, Nat.shiftRight_eq_div_pow]
  change word.toNat / 2 ^ 5 % 8 = _
  omega

theorem toNat_dest_ofWord (word : UInt8) : (ofWord word).dest.toNat = word.toNat / 8 % 4 := by
  rw [ofWord, toNat_dest_cut, UInt8.toNat_shiftRight, Nat.shiftRight_eq_div_pow]
  rfl

theorem toNat_operand_ofWord (word : UInt8) : (ofWord word).operand.toNat = word.toNat % 8 := by
  rw [ofWord, toNat_operand_cut]

theorem ext_toNat {left right : Fields} (hopcode : left.opcode.toNat = right.opcode.toNat)
    (hdest : left.dest.toNat = right.dest.toNat)
    (hoperand : left.operand.toNat = right.operand.toNat) : left = right := by
  cases left
  cases right
  simp only [mk.injEq]
  exact ⟨UInt8.toNat_inj.mp hopcode, UInt8.toNat_inj.mp hdest, UInt8.toNat_inj.mp hoperand⟩

theorem ofWord_toWord (fields : Fields) : ofWord fields.toWord = fields.cut := by
  apply ext_toNat
  · rw [toNat_opcode_ofWord, toNat_toWord, toNat_opcode_cut]
    omega
  · rw [toNat_dest_ofWord, toNat_toWord, toNat_dest_cut]
    omega
  · rw [toNat_operand_ofWord, toNat_toWord, toNat_operand_cut]
    omega

theorem toWord_ofWord (word : UInt8) : (ofWord word).toWord = word := by
  have hword := word.toNat_lt
  apply UInt8.toNat_inj.mp
  rw [toNat_toWord, toNat_opcode_ofWord, toNat_dest_ofWord, toNat_operand_ofWord]
  omega

theorem cut_ofWord (word : UInt8) : (ofWord word).cut = ofWord word := by
  rw [← ofWord_toWord, toWord_ofWord]

theorem cut_cut (fields : Fields) : fields.cut.cut = fields.cut := by
  rw [← ofWord_toWord fields, cut_ofWord]

theorem cut_of_lt {fields : Fields} (hopcode : fields.opcode.toNat < 8)
    (hdest : fields.dest.toNat < 4) (hoperand : fields.operand.toNat < 8) :
    fields.cut = fields := by
  apply ext_toNat
  · rw [toNat_opcode_cut, Nat.mod_eq_of_lt hopcode]
  · rw [toNat_dest_cut, Nat.mod_eq_of_lt hdest]
  · rw [toNat_operand_cut, Nat.mod_eq_of_lt hoperand]

end Fields

namespace Opcode

theorem bits_ofBits {bits : UInt8} (hbits : bits.toNat < 8) : (ofBits bits).bits = bits := by
  apply UInt8.toNat_inj.mp
  rw [ofBits, Nat.mod_eq_of_lt hbits]
  generalize bits.toNat = n at hbits
  interval_cases n <;> rfl

theorem bits_lt (opcode : Opcode) : opcode.bits.toNat < 8 := by
  cases opcode <;> decide

theorem jump?_eq_some_iff {opcode : Opcode} {dest : UInt8} {condition : Condition} :
    opcode.jump? dest = some condition ↔ dest = jumpMark ∧ opcode = condition.opcode := by
  rw [jump?]
  split
  · rename_i hdest
    rw [borrower?_eq_some_iff]
    exact ⟨fun hopcode => ⟨hdest, hopcode⟩, And.right⟩
  · rename_i hdest
    exact ⟨nofun, fun hboth => absurd hboth.1 hdest⟩

theorem jump?_eq_none_iff {opcode : Opcode} {dest : UInt8} :
    opcode.jump? dest = none ↔ (dest = jumpMark → opcode.borrower? = none) := by
  rw [jump?, ite_eq_right_iff]

/-- An opcode that no jump borrows is an operation with every destination. -/
theorem jump?_of_borrower? {opcode : Opcode} (hplain : opcode.borrower? = none) (dest : UInt8) :
    opcode.jump? dest = none :=
  jump?_eq_none_iff.mpr fun _ => hplain

end Opcode

namespace Instruction

/-- The instructions that words stand for. Every member fits into its field, and no operation has
the opcode and the destination of a jump. -/
def Valid : Instruction → Prop
  | .operation opcode dest source =>
      dest.toNat < 4 ∧ source.toNat < 8 ∧ opcode.jump? dest = none
  | .jump _ target => target.toNat < 8

/-- The fields of a word give the instruction, unless it is a jump, and then the word gives no
operation. -/
theorem decode_cases (word : UInt8) :
    (∃ condition, (Opcode.ofBits (Fields.ofWord word).opcode).jump? (Fields.ofWord word).dest =
        some condition ∧ decode word = .jump condition (Fields.ofWord word).operand) ∨
      (Opcode.ofBits (Fields.ofWord word).opcode).jump? (Fields.ofWord word).dest = none ∧
        decode word = .operation (Opcode.ofBits (Fields.ofWord word).opcode)
          (Fields.ofWord word).dest (Fields.ofWord word).operand := by
  unfold decode
  cases hjump : (Opcode.ofBits (Fields.ofWord word).opcode).jump? (Fields.ofWord word).dest with
  | none => exact Or.inr ⟨rfl, by simp only [hjump]⟩
  | some condition => exact Or.inl ⟨condition, rfl, by simp only [hjump]⟩

theorem decode_valid (word : UInt8) : (decode word).Valid := by
  have hoperand : (Fields.ofWord word).operand.toNat < 8 := by
    rw [Fields.toNat_operand_ofWord]
    exact Nat.mod_lt _ (by decide)
  rcases decode_cases word with ⟨condition, _, hdecode⟩ | ⟨hjump, hdecode⟩
  · rw [hdecode]
    exact hoperand
  · rw [hdecode]
    refine ⟨?_, hoperand, hjump⟩
    rw [Fields.toNat_dest_ofWord]
    exact Nat.mod_lt _ (by decide)

theorem fields_decode (word : UInt8) : (decode word).fields = Fields.ofWord word := by
  have hbits : (Opcode.ofBits (Fields.ofWord word).opcode).bits = (Fields.ofWord word).opcode := by
    apply Opcode.bits_ofBits
    have hword := word.toNat_lt
    rw [Fields.toNat_opcode_ofWord]
    omega
  rcases decode_cases word with ⟨condition, hjump, hdecode⟩ | ⟨_, hdecode⟩
  · obtain ⟨hdest, hopcode⟩ := Opcode.jump?_eq_some_iff.mp hjump
    rw [hdecode, fields, ← hopcode, hbits, ← hdest]
    exact Fields.cut_ofWord word
  · rw [hdecode, fields, hbits]
    exact Fields.cut_ofWord word

theorem encode_decode (word : UInt8) : (decode word).encode = word := by
  rw [encode, fields_decode, Fields.toWord_ofWord]

theorem ofWord_encode (instruction : Instruction) :
    Fields.ofWord instruction.encode = instruction.fields := by
  rw [encode, Fields.ofWord_toWord]
  cases instruction with
  | operation opcode dest source => exact Fields.cut_cut _
  | jump condition target => exact Fields.cut_cut _

/-- Decoding undoes encoding where nothing is cut off and no operation turns into a jump. -/
theorem decode_encode {instruction : Instruction} (hvalid : instruction.Valid) :
    decode instruction.encode = instruction := by
  cases instruction with
  | operation opcode dest source =>
      obtain ⟨hdest, hsource, hjump⟩ := hvalid
      have hfields : (operation opcode dest source).fields = ⟨opcode.bits, dest, source⟩ :=
        Fields.cut_of_lt opcode.bits_lt hdest hsource
      simp only [decode, ofWord_encode, hfields, Opcode.ofBits_bits, hjump]
  | jump condition target =>
      have hmark : Opcode.jumpMark.toNat < 4 := by decide
      have hfields : (jump condition target).fields =
          ⟨condition.opcode.bits, Opcode.jumpMark, target⟩ :=
        Fields.cut_of_lt condition.opcode.bits_lt hmark hvalid
      have hjump : condition.opcode.jump? Opcode.jumpMark = some condition :=
        Opcode.jump?_eq_some_iff.mpr ⟨rfl, rfl⟩
      simp only [decode, ofWord_encode, hfields, Opcode.ofBits_bits, hjump]

/-- An operation with the opcode and the destination of a jump has the word of the jump. -/
theorem encode_of_jump? {opcode : Opcode} {dest : UInt8} {condition : Condition}
    (hjump : opcode.jump? dest = some condition) (source : UInt8) :
    (operation opcode dest source).encode = (jump condition source).encode := by
  obtain ⟨rfl, rfl⟩ := Opcode.jump?_eq_some_iff.mp hjump
  rfl

/-! ## Immediate numbers -/

theorem immediate?_eq_some_iff {source value : UInt8} :
    immediate? source = some value ↔ 4 ≤ source.toNat ∧ value.toNat + 4 = source.toNat := by
  have hsource := source.toNat_lt
  rw [immediate?]
  split
  · rename_i hle
    have hbase : 4 ≤ source.toNat := hle
    rw [Option.some.injEq, ← UInt8.toNat_inj, UInt8.toNat_sub_of_le _ _ hle]
    change source.toNat - 4 = value.toNat ↔ _
    omega
  · rename_i hle
    exact ⟨nofun, fun hboth => absurd hboth.1 hle⟩

theorem lt_of_immediate?_eq_none {source : UInt8} (himmediate : immediate? source = none) :
    source.toNat < 4 := by
  rw [immediate?] at himmediate
  split at himmediate
  · cases himmediate
  · rename_i hle
    exact Nat.lt_of_not_le hle

end Instruction

end EightBit
