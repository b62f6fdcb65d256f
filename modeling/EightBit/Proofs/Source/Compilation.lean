import EightBit.Proofs.Isa.Codec
import EightBit.Proofs.Source.Meaning

/-!
# Words for what a program asks for

`Intent.instruction` is the instruction for what a line asks for. When a word can hold it, executing
the instruction is carrying out the line.
-/

namespace EightBit

theorem Register.ofField_ofNat (register : Register) :
    Register.ofField (.ofNat register) = register := by
  revert register
  decide

theorem Register.toNat_ofNat (register : Register) :
    (UInt8.ofNat register).toNat = register := by
  revert register
  decide

theorem Register.toNat_ofNat_lt (register : Register) : (UInt8.ofNat register).toNat < 4 := by
  rw [toNat_ofNat]
  exact register.isLt

theorem Register.ofNat_eq_jumpMark_iff {register : Register} :
    UInt8.ofNat register = Opcode.jumpMark ↔ register.val = 3 := by
  revert register
  decide

namespace Instruction

theorem immediate?_ofNat (register : Register) : immediate? (.ofNat register) = none := by
  revert register
  decide

theorem immediate?_add_base {value : Nat} (hvalue : value < 4) :
    immediate? (.ofNat value + immediateBase) = some (.ofNat value) := by
  interval_cases value <;> rfl

theorem valid_registers {opcode : Opcode} {dest : Register}
    (hjump : opcode.jump? (.ofNat dest) = none) (source : Register) :
    (operation opcode (.ofNat dest) (.ofNat source)).Valid :=
  ⟨dest.toNat_ofNat_lt, Nat.lt_trans source.toNat_ofNat_lt (by decide), hjump⟩

end Instruction

namespace Operator

def opcode : Operator → Opcode
  | .add => .add
  | .mul => .mul
  | .and => .and
  | .or => .or
  | .xor => .xor

theorem mnemonic_opcode (operator : Operator) : operator.opcode.mnemonic = operator.name := by
  cases operator <;> rfl

theorem isBinary_iff {opcode : Opcode} :
    opcode.isBinary = true ↔ ∃ operator : Operator, opcode = operator.opcode := by
  constructor
  · intro hbinary
    cases opcode with
    | add => exact ⟨.add, rfl⟩
    | mul => exact ⟨.mul, rfl⟩
    | and => exact ⟨.and, rfl⟩
    | or => exact ⟨.or, rfl⟩
    | xor => exact ⟨.xor, rfl⟩
    | mov => exact absurd hbinary (by decide)
    | cmp => exact absurd hbinary (by decide)
    | not => exact absurd hbinary (by decide)
  · rintro ⟨operator, rfl⟩
    cases operator <;> rfl

theorem opcode_injective {left right : Operator} (hopcode : left.opcode = right.opcode) :
    left = right := by
  revert hopcode
  cases left <;> cases right <;> decide

theorem jump?_opcode_eq_none_iff {operator : Operator} {dest : Register} :
    operator.opcode.jump? (.ofNat dest) = none ↔
      dest.val = 3 → operator ≠ .or ∧ operator ≠ .xor := by
  rw [Opcode.jump?_eq_none_iff, Register.ofNat_eq_jumpMark_iff]
  apply imp_congr_right
  intro _
  cases operator <;> decide

end Operator

namespace State

theorem operand_register (state : State) (opcode : Opcode) (source : Register) :
    state.operand opcode (.ofNat source) = state.register source := by
  simp only [operand, Instruction.immediate?_ofNat, Register.ofField_ofNat]

theorem operand_immediate {source value : UInt8}
    (himmediate : Instruction.immediate? source = some value) (state : State) :
    state.operand .mov source = value := by
  simp only [operand, himmediate]

theorem operand_of_not_immediate {source : UInt8}
    (himmediate : Instruction.immediate? source = none) (state : State) :
    state.operand .mov source = state.register (Register.ofField source) := by
  simp only [operand, himmediate]

/-- An operation by the register that its destination names and the value of its operand. -/
theorem operate_eq {state : State} {opcode : Opcode} {dest source value : UInt8}
    {register : Register} (hdest : Register.ofField dest = register)
    (hsource : state.operand opcode source = value) :
    state.operate opcode dest source =
      { registers :=
          if opcode.stores then
            (state.setRegister register (opcode.result (state.register register) value)).registers
          else state.registers
        pc := state.pc + 1
        zero :=
          if opcode.setsZero then opcode.result (state.register register) value == 0
          else state.zero } := by
  subst hdest hsource
  rfl

theorem sub_beq_zero (a b : UInt8) : (a - b == 0) = decide (a = b) := by
  rw [Bool.eq_iff_iff, beq_iff_eq, decide_eq_true_iff, UInt8.sub_eq_iff_eq_add, UInt8.zero_add]

end State

namespace Intent

/-- A word can hold what is asked for: a number fits into its field, and no operation takes the
fields of a jump. -/
def Fits : Intent → Prop
  | .load _ value => value < 4
  | .compute operator dest _ => dest.val = 3 → operator ≠ .or ∧ operator ≠ .xor
  | .compare dest _ => dest.val ≠ 3
  | .jump _ target => target < 8
  | .nop | .copy .. | .complement _ => True

def instruction : Intent → Instruction
  | .nop => .operation .add 0 0
  | .load dest value => .operation .mov (.ofNat dest) (.ofNat value + Instruction.immediateBase)
  | .copy dest source => .operation .mov (.ofNat dest) (.ofNat source)
  | .compute operator dest source => .operation operator.opcode (.ofNat dest) (.ofNat source)
  | .complement dest => .operation .not (.ofNat dest) 0
  | .compare dest source => .operation .cmp (.ofNat dest) (.ofNat source)
  | .jump condition target => .jump condition (.ofNat target)

/-- What a word holds of what is asked for: of a number only the bits of its field. -/
def held : Intent → Intent
  | .load dest value => .load dest (value % 4)
  | .jump condition target => .jump condition (target % 8)
  | intent => intent

theorem held_of_fits {intent : Intent} (hfits : intent.Fits) : intent.held = intent := by
  cases intent with
  | load dest value => exact congrArg (load dest) (Nat.mod_eq_of_lt hfits)
  | jump condition target => exact congrArg (jump condition) (Nat.mod_eq_of_lt hfits)
  | nop => rfl
  | copy => rfl
  | compute => rfl
  | complement => rfl
  | compare => rfl

theorem instruction_valid {intent : Intent} (hfits : intent.Fits) : intent.instruction.Valid := by
  cases intent with
  | nop => exact ⟨by decide, by decide, rfl⟩
  | load dest value =>
      change value < 4 at hfits
      refine ⟨dest.toNat_ofNat_lt, ?_, Opcode.jump?_of_borrower? rfl _⟩
      interval_cases value <;> decide
  | copy dest source => exact Instruction.valid_registers (Opcode.jump?_of_borrower? rfl _) source
  | compute operator dest source =>
      exact Instruction.valid_registers (Operator.jump?_opcode_eq_none_iff.mpr hfits) source
  | complement dest => exact ⟨dest.toNat_ofNat_lt, by decide, Opcode.jump?_of_borrower? rfl _⟩
  | compare dest source =>
      apply Instruction.valid_registers
      rw [Opcode.jump?_eq_none_iff, Register.ofNat_eq_jumpMark_iff]
      exact fun hthree => absurd hthree hfits
  | jump condition target =>
      change target < 8 at hfits
      change (UInt8.ofNat target).toNat < 8
      rwa [UInt8.toNat_ofNat_of_lt' (Nat.lt_trans hfits (by decide))]

theorem jump_eq_perform (state : State) (condition : Condition) (target : Nat) :
    state.jump condition (.ofNat target) = (jump condition target).perform state := by
  have htaken : condition.holds state.zero = true ↔ taken state condition := by
    cases condition with
    | always => exact iff_of_true rfl trivial
    | zero => exact Iff.rfl
    | nonzero => simp [Condition.holds, taken]
  change { state with pc := if _ then _ else _ } = _
  by_cases htrue : taken state condition
  · rw [perform, if_pos htrue, if_pos (htaken.mpr htrue)]
  · rw [perform, if_neg htrue, if_neg fun hholds => htrue (htaken.mp hholds)]
    rfl

/-- Executing the instruction is carrying out the line, when a word can hold it. -/
theorem execute_instruction {intent : Intent} (hfits : intent.Fits) (state : State) :
    state.execute intent.instruction = intent.perform state := by
  cases intent with
  | nop => exact State.operate_eq rfl rfl
  | load dest value =>
      have himmediate := Instruction.immediate?_add_base hfits
      exact State.operate_eq (Register.ofField_ofNat dest) (state.operand_immediate himmediate)
  | copy dest source =>
      exact State.operate_eq (Register.ofField_ofNat dest) (state.operand_register .mov source)
  | compute operator dest source =>
      have hsource := state.operand_register operator.opcode source
      refine (State.operate_eq (Register.ofField_ofNat dest) hsource).trans ?_
      cases operator <;> rfl
  | complement dest => exact State.operate_eq (Register.ofField_ofNat dest) rfl
  | compare dest source =>
      have hsource := state.operand_register .cmp source
      refine (State.operate_eq (Register.ofField_ofNat dest) hsource).trans ?_
      simp only [Opcode.result, Opcode.stores, Opcode.setsZero, State.sub_beq_zero]
      rfl
  | jump condition target => exact jump_eq_perform state condition target

end Intent

end EightBit
