import EightBit.Machine.State

/-!
# What instructions read and write

An instruction looks at some registers and changes at most one. Whatever the values of the other
registers, what it leaves is the same, but for those registers themselves.
-/

namespace EightBit

namespace Instruction

/-- The value of the register makes a difference to what the instruction does. A move looks at the
register it copies from and a complement at the one it changes. -/
def Reads (register : Register) : Instruction → Prop
  | .operation opcode dest source =>
      opcode ≠ .mov ∧ Register.ofField dest = register ∨
        opcode ≠ .not ∧ ¬(opcode = .mov ∧ immediateBase ≤ source) ∧
          Register.ofField source = register
  | .jump _ _ => False

/-- The instruction stores its result in the register. Comparisons and jumps store none. -/
def Writes (register : Register) : Instruction → Prop
  | .operation opcode dest _ => opcode ≠ .cmp ∧ Register.ofField dest = register
  | .jump _ _ => False

instance (register : Register) : (instruction : Instruction) →
    Decidable (Reads register instruction)
  | .operation .. => inferInstanceAs (Decidable (_ ∨ _))
  | .jump .. => isFalse id

end Instruction

theorem Opcode.stores_iff {opcode : Opcode} : opcode.stores = true ↔ opcode ≠ .cmp := by
  cases opcode <;> decide

theorem Opcode.setsZero_iff {opcode : Opcode} : opcode.setsZero = true ↔ opcode ≠ .mov := by
  cases opcode <;> decide

/-- The result of a move does not depend on its destination, nor that of a complement on its
second operand. -/
theorem Opcode.result_congr {opcode : Opcode} {a b a' b' : UInt8} (hfirst : opcode ≠ .mov → a = a')
    (hsecond : opcode ≠ .not → b = b') : opcode.result a b = opcode.result a' b' := by
  cases opcode with
  | mov => exact hsecond nofun
  | not => exact congrArg (~~~·) (hfirst nofun)
  | _ => rw [hfirst nofun, hsecond nofun]

namespace State

/-! ## One register -/

theorem get_set (registers : Vector UInt8 4) (register other : Register) (value : UInt8) :
    (registers.set register value register.isLt).get other =
      if register = other then value else registers.get other := by
  change (registers.set register value register.isLt)[other.val] = _
  rw [Vector.getElem_set]
  simp only [Fin.ext_iff]
  rfl

/-- The second operand is a number in a move with a large operand field, and otherwise the value of
a register. -/
theorem operand_eq_ite (state : State) (opcode : Opcode) (source : UInt8) :
    state.operand opcode source =
      if opcode = .mov ∧ Instruction.immediateBase ≤ source then
        source - Instruction.immediateBase
      else state.register (Register.ofField source) := by
  unfold operand Instruction.immediate?
  by_cases hbase : Instruction.immediateBase ≤ source
  · rw [if_pos hbase]
    cases opcode with
    | mov => exact (if_pos ⟨rfl, hbase⟩).symm
    | _ => exact (if_neg fun hboth => Opcode.noConfusion hboth.1).symm
  · rw [if_neg hbase, if_neg fun hboth => hbase hboth.2]
    cases opcode <;> rfl

section Operations

variable {state : State} {opcode : Opcode} {dest source : UInt8}

/-- An operation that stores its result does so in its destination. -/
theorem register_operate_dest (hstores : opcode ≠ .cmp) :
    (state.operate opcode dest source).register (Register.ofField dest) =
      opcode.result (state.register (Register.ofField dest)) (state.operand opcode source) := by
  rw [register, operate]
  dsimp only
  rw [if_pos (Opcode.stores_iff.mpr hstores), get_set, if_pos rfl]

theorem register_operate_of_ne {other : Register} (hother : Register.ofField dest ≠ other) :
    (state.operate opcode dest source).register other = state.register other := by
  rw [register, operate]
  dsimp only
  split
  · rw [get_set, if_neg hother, register]
  · rfl

/-- Every operation but a move tells by the flag if its result was zero. -/
theorem zero_operate (hmove : opcode ≠ .mov) :
    (state.operate opcode dest source).zero =
      (opcode.result (state.register (Register.ofField dest)) (state.operand opcode source) == 0) :=
  if_pos (Opcode.setsZero_iff.mpr hmove)

end Operations

/-- A register that the instruction does not write keeps its value. -/
theorem register_execute {state : State} {instruction : Instruction} {register : Register}
    (hkept : ¬instruction.Writes register) :
    (state.execute instruction).register register = state.register register := by
  cases instruction with
  | operation opcode dest source =>
      by_cases hcompare : opcode = .cmp
      · subst hcompare
        rfl
      · exact register_operate_of_ne fun hdest => hkept ⟨hcompare, hdest⟩
  | jump condition target => rfl

/-! ## All but one register -/

/-- The states differ at most in the register. -/
structure AgreeBut (register : Register) (left right : State) : Prop where
  pc : left.pc = right.pc
  zero : left.zero = right.zero
  registers : ∀ other ≠ register, left.register other = right.register other

namespace AgreeBut

theorem setRegister (register : Register) (state : State) (value : UInt8) :
    AgreeBut register state (state.setRegister register value) where
  pc := rfl
  zero := rfl
  registers := by
    intro other hother
    exact (get_set state.registers register other value).trans (if_neg (Ne.symm hother)) |>.symm

variable {register : Register} {left right : State} {opcode : Opcode} {dest source : UInt8}

theorem operand_eq (hagree : AgreeBut register left right)
    (hunread : ¬(opcode = .mov ∧ Instruction.immediateBase ≤ source) →
      Register.ofField source ≠ register) :
    left.operand opcode source = right.operand opcode source := by
  rw [operand_eq_ite, operand_eq_ite]
  split
  · rfl
  · rename_i himmediate
    exact hagree.registers _ (hunread himmediate)

theorem result_eq (hagree : AgreeBut register left right)
    (hunread : ¬(Instruction.operation opcode dest source).Reads register) :
    opcode.result (left.register (Register.ofField dest)) (left.operand opcode source) =
      opcode.result (right.register (Register.ofField dest)) (right.operand opcode source) := by
  apply Opcode.result_congr
  · intro hmove
    exact hagree.registers _ fun hdest => hunread (Or.inl ⟨hmove, hdest⟩)
  · intro hcomplement
    apply hagree.operand_eq
    intro himmediate hsource
    exact hunread (Or.inr ⟨hcomplement, himmediate, hsource⟩)

theorem operate (hagree : AgreeBut register left right)
    (hunread : ¬(Instruction.operation opcode dest source).Reads register) :
    AgreeBut register (left.operate opcode dest source) (right.operate opcode dest source) where
  pc := congrArg (· + 1) hagree.pc
  zero := by
    unfold State.operate
    dsimp only
    rw [hagree.result_eq hunread, hagree.zero]
  registers := by
    intro other hother
    by_cases hwritten : (Instruction.operation opcode dest source).Writes other
    · obtain ⟨hstores, rfl⟩ := hwritten
      rw [register_operate_dest hstores, register_operate_dest hstores, hagree.result_eq hunread]
    · have hkept (state : State) :
          (state.operate opcode dest source).register other = state.register other :=
        register_execute hwritten
      rw [hkept left, hkept right, hagree.registers other hother]

theorem jump (hagree : AgreeBut register left right) (condition : Condition) (target : UInt8) :
    AgreeBut register (left.jump condition target) (right.jump condition target) where
  pc := by
    rw [State.jump, State.jump, hagree.pc, hagree.zero]
  zero := hagree.zero
  registers := hagree.registers

/-- An instruction that does not read the register takes states that agree but in it to such
states. -/
theorem execute (hagree : AgreeBut register left right) {instruction : Instruction}
    (hunread : ¬instruction.Reads register) :
    AgreeBut register (left.execute instruction) (right.execute instruction) := by
  cases instruction with
  | operation opcode dest source => exact hagree.operate hunread
  | jump condition target => exact hagree.jump condition target

end AgreeBut

end State

end EightBit
