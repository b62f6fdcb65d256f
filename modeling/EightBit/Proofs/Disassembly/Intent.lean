import EightBit.Proofs.Source.Compilation

/-!
# What the text of an instruction asks for

The text of an instruction leaves out the bits of a word that the instruction does not look at.
`Instruction.intent` is what the text asks for. Carrying it out is executing the instruction, and
where none of the bits that are left out is set, the instruction for it is the same one again.
-/

namespace EightBit.Instruction

/-- What the text of an instruction asks for. -/
def intent : Instruction → Intent
  | .jump condition target => .jump condition target.toNat
  | .operation opcode dest source =>
    let dest := Register.ofField dest
    let register := Register.ofField source
    match opcode with
    | .add => .compute .add dest register
    | .mul => .compute .mul dest register
    | .and => .compute .and dest register
    | .or => .compute .or dest register
    | .xor => .compute .xor dest register
    | .mov =>
      match immediate? source with
      | some value => .load dest value.toNat
      | none => .copy dest register
    | .cmp => .compare dest register
    | .not => .complement dest

/-- The bits of the operand field that the instruction does not look at are not set. -/
def Tidy : Instruction → Prop
  | .jump .. | .operation .mov .. => True
  | .operation .not _ source => source = 0
  | .operation _ _ source => source.toNat < 4

/-- The cases that differ in what the text asks for. -/
@[elab_as_elim]
theorem byIntent {motive : Instruction → Prop}
    (jump : ∀ condition target, motive (.jump condition target))
    (compute : ∀ (operator : Operator) dest source,
      motive (.operation operator.opcode dest source))
    (load : ∀ dest source value, immediate? source = some value →
      motive (.operation .mov dest source))
    (copy : ∀ dest source, immediate? source = none → motive (.operation .mov dest source))
    (compare : ∀ dest source, motive (.operation .cmp dest source))
    (complement : ∀ dest source, motive (.operation .not dest source))
    (instruction : Instruction) : motive instruction := by
  cases instruction with
  | jump condition target => exact jump condition target
  | operation opcode dest source =>
      cases opcode with
      | add => exact compute .add dest source
      | mul => exact compute .mul dest source
      | and => exact compute .and dest source
      | or => exact compute .or dest source
      | xor => exact compute .xor dest source
      | mov =>
          cases himmediate : immediate? source with
          | some value => exact load dest source value himmediate
          | none => exact copy dest source himmediate
      | cmp => exact compare dest source
      | not => exact complement dest source

theorem intent_compute (operator : Operator) (dest source : UInt8) :
    (operation operator.opcode dest source).intent =
      .compute operator (Register.ofField dest) (Register.ofField source) := by
  cases operator <;> rfl

theorem intent_load {source value : UInt8} (himmediate : immediate? source = some value)
    (dest : UInt8) :
    (operation .mov dest source).intent = .load (Register.ofField dest) value.toNat := by
  simp only [intent, himmediate]

theorem intent_copy {source : UInt8} (himmediate : immediate? source = none) (dest : UInt8) :
    (operation .mov dest source).intent =
      .copy (Register.ofField dest) (Register.ofField source) := by
  simp only [intent, himmediate]

theorem tidy_compute_iff {operator : Operator} {dest source : UInt8} :
    (operation operator.opcode dest source).Tidy ↔ source.toNat < 4 := by
  cases operator <;> exact Iff.rfl

theorem ofNat_ofField {field : UInt8} (hfield : field.toNat < 4) :
    UInt8.ofNat (Register.ofField field) = field := by
  rw [Register.ofField]
  simp only [Nat.mod_eq_of_lt hfield, UInt8.ofNat_toNat]

theorem ofField_eq_three_iff {field : UInt8} (hfield : field.toNat < 4) :
    (Register.ofField field).val = 3 ↔ field = Opcode.jumpMark := by
  rw [← Register.ofNat_eq_jumpMark_iff, ofNat_ofField hfield]

/-- A word can hold what the text asks for. -/
theorem fits_intent {instruction : Instruction} (hvalid : instruction.Valid) :
    instruction.intent.Fits := by
  cases instruction using byIntent with
  | jump condition target => exact hvalid
  | compute operator dest source =>
      obtain ⟨hdest, _, hjump⟩ := hvalid
      rw [intent_compute]
      rw [← ofNat_ofField hdest] at hjump
      exact Operator.jump?_opcode_eq_none_iff.mp hjump
  | load dest source value himmediate =>
      obtain ⟨_, hvalue⟩ := immediate?_eq_some_iff.mp himmediate
      have hsource := hvalid.2.1
      rw [intent_load himmediate]
      change value.toNat < 4
      omega
  | copy dest source himmediate =>
      rw [intent_copy himmediate]
      trivial
  | compare dest source =>
      obtain ⟨hdest, _, hjump⟩ := hvalid
      intro hthree
      rw [(ofField_eq_three_iff hdest).mp hthree] at hjump
      exact absurd hjump (by decide)
  | complement dest source => trivial

/-- Carrying out what the text asks for is executing the instruction. -/
theorem perform_intent (instruction : Instruction) (state : State) :
    instruction.intent.perform state = state.execute instruction := by
  cases instruction using byIntent with
  | jump condition target =>
      have hjump := Intent.jump_eq_perform state condition target.toNat
      rw [UInt8.ofNat_toNat] at hjump
      exact hjump.symm
  | compute operator dest source =>
      rw [intent_compute]
      cases operator <;> rfl
  | load dest source value himmediate =>
      rw [intent_load himmediate, Intent.perform, UInt8.ofNat_toNat]
      exact (State.operate_eq rfl (state.operand_immediate himmediate)).symm
  | copy dest source himmediate =>
      rw [intent_copy himmediate]
      exact (State.operate_eq rfl (state.operand_of_not_immediate himmediate)).symm
  | compare dest source =>
      refine Eq.trans ?_ (State.operate_eq rfl rfl).symm
      simp only [Opcode.result, Opcode.stores, Opcode.setsZero, State.sub_beq_zero]
      rfl
  | complement dest source => rfl

/-- Nothing is left out of the text of a tidy instruction. -/
theorem instruction_intent {instruction : Instruction} (hvalid : instruction.Valid)
    (htidy : instruction.Tidy) : instruction.intent.instruction = instruction := by
  cases instruction using byIntent with
  | jump condition target => simp [intent, Intent.instruction]
  | compute operator dest source =>
      rw [tidy_compute_iff] at htidy
      rw [intent_compute, Intent.instruction, ofNat_ofField hvalid.1, ofNat_ofField htidy]
  | load dest source value himmediate =>
      have hfield : UInt8.ofNat value.toNat + immediateBase = source := by
        obtain ⟨hbase, hvalue⟩ := immediate?_eq_some_iff.mp himmediate
        have hsource := source.toNat_lt
        rw [← UInt8.toNat_inj, UInt8.ofNat_toNat, UInt8.toNat_add, ← hvalue]
        exact Nat.mod_eq_of_lt (show value.toNat + 4 < 2 ^ 8 by omega)
      rw [intent_load himmediate, Intent.instruction, ofNat_ofField hvalid.1, hfield]
  | copy dest source himmediate =>
      rw [intent_copy himmediate, Intent.instruction, ofNat_ofField hvalid.1,
        ofNat_ofField (lt_of_immediate?_eq_none himmediate)]
  | compare dest source =>
      have hsource : source.toNat < 4 := htidy
      rw [intent, Intent.instruction, ofNat_ofField hvalid.1, ofNat_ofField hsource]
  | complement dest source =>
      have hsource : source = 0 := htidy
      rw [intent, Intent.instruction, ofNat_ofField hvalid.1, hsource]

theorem isJump_instruction_intent (instruction : Instruction) :
    instruction.intent.instruction.isJump = instruction.isJump := by
  cases instruction using byIntent with
  | jump condition target => rfl
  | compute operator dest source => rw [intent_compute]; rfl
  | load dest source value himmediate => rw [intent_load himmediate]; rfl
  | copy dest source himmediate => rw [intent_copy himmediate]; rfl
  | compare dest source => rfl
  | complement dest source => rfl

end EightBit.Instruction
