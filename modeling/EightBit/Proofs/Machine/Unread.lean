import EightBit.Proofs.Machine.Lockstep
import EightBit.Proofs.Machine.Registers

/-!
# Registers that no instruction reads

What stands in a register makes no difference to anything else when no word of the memory is an
instruction that reads it. Machines that differ in such a register alone stay in lockstep.
-/

namespace EightBit

/-- No word is an instruction that reads the register. -/
def Rom.NeverReads (rom : Rom) (register : Register) : Prop :=
  ∀ word ∈ rom.words.toList, ¬(Instruction.decode word).Reads register

instance (rom : Rom) (register : Register) : Decidable (rom.NeverReads register) :=
  List.decidableBAll _ rom.words.toList

theorem Rom.read_mem (rom : Rom) (address : UInt8) : rom.read address ∈ rom.words.toList :=
  Vector.mem_toList_iff.mpr (Vector.getElem_mem _)

namespace Machine

/-- The machines differ at most in the value of the register. -/
structure AgreeBut (register : Register) (left right : Machine) : Prop where
  rom : left.rom = right.rom
  state : State.AgreeBut register left.state right.state
  cycles : left.cycles = right.cycles

variable {register : Register} {left right : Machine}

theorem AgreeBut.next_eq (hagree : AgreeBut register left right) : left.next = right.next := by
  rw [next, next, word, word, hagree.rom, hagree.state.pc]

theorem AgreeBut.step (hagree : AgreeBut register left right)
    (hunread : left.rom.NeverReads register) : AgreeBut register left.step right.step where
  rom := hagree.rom
  state := by
    rw [state_step, state_step, ← hagree.next_eq]
    exact hagree.state.execute (hunread _ (left.rom.read_mem _))
  cycles := by
    rw [cycles_step, cycles_step, hagree.cycles]

/-- Machines that agree but in a register stay in lockstep if their memory never reads it. -/
theorem lockstep_agreeBut (register : Register) :
    Lockstep fun left right => left.rom.NeverReads register ∧ AgreeBut register left right where
  related_step := by
    rintro left right ⟨hunread, hagree⟩
    exact ⟨hunread, hagree.step hunread⟩
  pc_eq := by
    rintro left right ⟨_, hagree⟩
    exact hagree.state.pc
  isJump_eq := by
    rintro left right ⟨_, hagree⟩
    rw [hagree.next_eq]

/-- A register that no word of the memory reads influences nothing but itself. Machines that differ
in it alone agree in everything else after any number of steps, and their runs take as long and end
for the same reason. -/
theorem unread_register_without_influence (hunread : left.rom.NeverReads register)
    (hagree : AgreeBut register left right) :
    (∀ count, AgreeBut register (step^[count] left) (step^[count] right)) ∧
      ∀ options, (left.run options).cycles = (right.run options).cycles ∧
        (left.run options).stop = (right.run options).stop ∧
        AgreeBut register (left.run options).machine (right.run options).machine := by
  constructor
  · intro count
    exact ((lockstep_agreeBut register).related_iterate ⟨hunread, hagree⟩ count).2
  · intro options
    obtain ⟨⟨_, hmachine⟩, hcycles, hstop⟩ := (lockstep_agreeBut register).related_runFrom
      options.halt (fun _ _ => ()) (fun _ _ => ()) options.budget 0 () () ⟨hunread, hagree⟩
    exact ⟨hcycles, hstop, hmachine⟩

/-- The fields of three of the words name `R3`, but the first move only changes it, the complement
has no second operand, and the second move takes a number. -/
theorem unread_register_without_influence_named :
    let rom : Rom := ⟨#v[0xBD, 0xEB, 0xA7, 0, 0, 0, 0, 0, 0, 0, 0, 0, 0, 0, 0, 0]⟩
    let left : Machine := ⟨rom, ⟨#v[1, 2, 3, 4], 0, false⟩, 7⟩
    let right : Machine := ⟨rom, left.state.setRegister 3 250, 7⟩
    (rom.read 0, rom.read 1, rom.read 2) =
        (Instruction.encode (.operation .mov 3 5), Instruction.encode (.operation .not 1 3),
          Instruction.encode (.operation .mov 0 7)) ∧
      rom.NeverReads 3 ∧ AgreeBut 3 left right ∧
      (∀ count, AgreeBut 3 (step^[count] left) (step^[count] right)) ∧
      (left.run ⟨50, .never⟩).cycles = (right.run ⟨50, .never⟩).cycles := by
  intro rom left right
  have hunread : rom.NeverReads 3 := by decide
  have hagree : AgreeBut 3 left right := ⟨rfl, .setRegister 3 left.state 250, rfl⟩
  obtain ⟨hsteps, hruns⟩ := unread_register_without_influence hunread hagree
  exact ⟨by decide, hunread, hagree, hsteps, (hruns ⟨50, .never⟩).1⟩

end Machine

end EightBit
