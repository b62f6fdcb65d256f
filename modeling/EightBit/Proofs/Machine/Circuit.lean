import EightBit.Proofs.Machine.Registers
import EightBit.Proofs.Machine.Stopping

/-!
# A program counter of four bits

The memory has sixteen words, so a circuit that is built around it needs no more than a program
counter of four bits, which goes from the last address back to the first. `Circuit` is this machine,
and `Machine.circuit` leaves out what it does not have. A machine does step by step what its circuit
does, and so do all machines with the same circuit, wherever their program counters have got to.
-/

namespace EightBit

theorem Register.ofField_lt (field : UInt8) : (ofField field).val < 4 :=
  (ofField field).isLt

/-- The machine with a program counter as wide as an address. -/
@[ext] structure Circuit where
  rom : Rom
  registers : Vector UInt8 4
  pc : Fin 16
  zero : Bool
deriving DecidableEq

namespace Circuit

def next (circuit : Circuit) : Instruction :=
  Instruction.decode (circuit.rom.words.get circuit.pc)

def operand (circuit : Circuit) (opcode : Opcode) (source : UInt8) : UInt8 :=
  if opcode = .mov ∧ Instruction.immediateBase ≤ source then source - Instruction.immediateBase
  else circuit.registers.get (Register.ofField source)

def operate (circuit : Circuit) (opcode : Opcode) (dest source : UInt8) : Circuit :=
  let register := Register.ofField dest
  let result := opcode.result (circuit.registers.get register) (circuit.operand opcode source)
  { circuit with
    registers :=
      if opcode.stores then circuit.registers.set register result (Register.ofField_lt dest)
      else circuit.registers
    pc := circuit.pc + 1
    zero := if opcode.setsZero then result == 0 else circuit.zero }

/-- The circuit after a jump. Of the target it takes the bits of an address. -/
def jump (circuit : Circuit) (condition : Condition) (target : UInt8) : Circuit :=
  { circuit with
    pc := if condition.holds circuit.zero then .ofNat 16 target.toNat else circuit.pc + 1 }

def execute (circuit : Circuit) : Instruction → Circuit
  | .operation opcode dest source => circuit.operate opcode dest source
  | .jump condition target => circuit.jump condition target

def step (circuit : Circuit) : Circuit :=
  circuit.execute circuit.next

/-- The first `count` instructions that the circuit executes. -/
def executed (circuit : Circuit) (count : Nat) : List Instruction :=
  (List.range count).map fun index => (step^[index] circuit).next

/-- The circuit in a state: of the program counter it has the bits of an address. -/
def ofState (rom : Rom) (state : State) : Circuit where
  rom := rom
  registers := state.registers
  pc := .ofNat 16 state.pc.toNat
  zero := state.zero

/-! ## One instruction -/

/-- The bits of an address go on by one with the program counter, also where that wraps around. -/
theorem ofNat_add_one (pc : UInt8) : Fin.ofNat 16 (pc + 1).toNat = Fin.ofNat 16 pc.toNat + 1 := by
  apply Fin.ext
  rw [Fin.val_add, Fin.val_ofNat, Fin.val_ofNat, UInt8.toNat_add]
  change (pc.toNat + 1) % 256 % 16 = (pc.toNat % 16 + 1) % 16
  omega

section Instructions

variable (rom : Rom) (state : State)

theorem operand_ofState (opcode : Opcode) (source : UInt8) :
    (ofState rom state).operand opcode source = state.operand opcode source := by
  rw [State.operand_eq_ite]
  rfl

theorem operate_ofState (opcode : Opcode) (dest source : UInt8) :
    (ofState rom state).operate opcode dest source =
      ofState rom (state.operate opcode dest source) := by
  unfold operate
  rw [operand_ofState]
  exact Circuit.ext rfl rfl (ofNat_add_one state.pc).symm rfl

theorem jump_ofState (condition : Condition) (target : UInt8) :
    (ofState rom state).jump condition target = ofState rom (state.jump condition target) := by
  refine Circuit.ext rfl rfl ?_ rfl
  change (if condition.holds state.zero then Fin.ofNat 16 target.toNat
    else Fin.ofNat 16 state.pc.toNat + 1) = Fin.ofNat 16
      (if condition.holds state.zero then target else state.pc + 1).toNat
  split
  · rfl
  · exact (ofNat_add_one state.pc).symm

/-- Executing an instruction and leaving out the high bits of the program counter commute. -/
theorem execute_ofState (instruction : Instruction) :
    (ofState rom state).execute instruction = ofState rom (state.execute instruction) := by
  cases instruction with
  | operation opcode dest source => exact operate_ofState rom state opcode dest source
  | jump condition target => exact jump_ofState rom state condition target

end Instructions

end Circuit

namespace Machine

/-- The circuit of a machine, which does not count instructions. -/
def circuit (machine : Machine) : Circuit :=
  .ofState machine.rom machine.state

/-- The first `count` instructions that the machine executes. -/
def executed (machine : Machine) (count : Nat) : List Instruction :=
  (trail machine count).map next

/-! ## Any number of steps -/

/-- The memory looks at the bits of an address only. -/
theorem next_circuit (machine : Machine) : machine.circuit.next = machine.next := rfl

/-- One step of a machine is one step of its circuit. -/
theorem circuit_step (machine : Machine) : machine.step.circuit = machine.circuit.step := by
  rw [Circuit.step, next_circuit, circuit, circuit, Circuit.execute_ofState]
  rfl

/-- What the machine comes to has the circuit that its circuit comes to. -/
theorem circuit_iterate (machine : Machine) (count : Nat) :
    (step^[count] machine).circuit = Circuit.step^[count] machine.circuit :=
  Function.Semiconj.iterate_right circuit_step count machine

theorem executed_circuit (machine : Machine) (count : Nat) :
    machine.circuit.executed count = machine.executed count := by
  rw [Circuit.executed, executed, trail, List.map_map]
  refine List.map_congr_left fun index _ => ?_
  rw [← circuit_iterate]
  exact next_circuit _

/-- The machines differ in the high bits of their program counters and in their counts at most. -/
structure Congruent (left right : Machine) : Prop where
  rom : left.rom = right.rom
  registers : left.state.registers = right.state.registers
  zero : left.state.zero = right.state.zero
  pc : left.state.pc.toNat % 16 = right.state.pc.toNat % 16

/-- Machines are congruent when they have the same circuit. -/
theorem congruent_iff {left right : Machine} :
    Congruent left right ↔ left.circuit = right.circuit := by
  constructor
  · intro hcongruent
    exact Circuit.ext hcongruent.rom hcongruent.registers (Fin.ext hcongruent.pc) hcongruent.zero
  · intro hsame
    exact ⟨congrArg Circuit.rom hsame, congrArg Circuit.registers hsame,
      congrArg Circuit.zero hsame, congrArg (Fin.val ∘ Circuit.pc) hsame⟩

/-- Congruent machines execute the same instructions and stay congruent for any number of steps,
and both do what their circuit does. -/
theorem stepping_refines_circuit {left right : Machine} (hcongruent : Congruent left right)
    (count : Nat) :
    left.executed count = right.executed count ∧
      Congruent (step^[count] left) (step^[count] right) ∧
      left.circuit.executed count = left.executed count ∧
      (step^[count] left).circuit = Circuit.step^[count] left.circuit := by
  have hsame : left.circuit = right.circuit := congruent_iff.mp hcongruent
  refine ⟨?_, ?_, executed_circuit left count, circuit_iterate left count⟩
  · rw [← executed_circuit, ← executed_circuit, hsame]
  · rw [congruent_iff, circuit_iterate, circuit_iterate, hsame]

/-- One program counter goes from `255` to `0` and the other from `15` to `16`. -/
theorem stepping_refines_circuit_wrapped :
    Congruent ⟨.empty, ⟨#v[3, 0, 0, 0], 255, false⟩, 7⟩
        ⟨.empty, ⟨#v[3, 0, 0, 0], 15, false⟩, 0⟩ ∧
      Congruent (step^[2] ⟨.empty, ⟨#v[3, 0, 0, 0], 255, false⟩, 7⟩)
        (step^[2] ⟨.empty, ⟨#v[3, 0, 0, 0], 15, false⟩, 0⟩) ∧
      (step^[2] ⟨.empty, ⟨#v[3, 0, 0, 0], 255, false⟩, 7⟩).state.pc = 1 ∧
      (step^[2] ⟨.empty, ⟨#v[3, 0, 0, 0], 15, false⟩, 0⟩).state.pc = 17 := by
  have hcongruent : Congruent ⟨.empty, ⟨#v[3, 0, 0, 0], 255, false⟩, 7⟩
      ⟨.empty, ⟨#v[3, 0, 0, 0], 15, false⟩, 0⟩ := ⟨rfl, rfl, rfl, rfl⟩
  exact ⟨hcongruent, (stepping_refines_circuit hcongruent 2).2.1, by decide, by decide⟩

end Machine

end EightBit
