import EightBit.Proofs.Disassembly.RoundTrip
import EightBit.Proofs.Machine.Lockstep
import EightBit.Proofs.Rom.Program

/-!
# Running a reassembled memory

Assembling the disassembly of a memory may change words, in bits that their instructions do not look
at. No run can tell the difference.
-/

namespace EightBit

open Instruction (texts disassembly reassembled)

theorem Instruction.execute_decode_reassembled (word : UInt8) (state : State) :
    state.execute (decode (reassembled word)) = state.execute (decode word) := by
  rw [decode_reassembled, Intent.execute_instruction (fits_intent (decode_valid word)),
    perform_intent]

theorem Instruction.isJump_decode_reassembled (word : UInt8) :
    (decode (reassembled word)).isJump = (decode word).isJump := by
  rw [decode_reassembled, isJump_instruction_intent]

theorem Instruction.reassembled_nop : reassembled nop = nop :=
  reassembled_of_tidy Statement.tidy_decode_nop

namespace Rom

theorem read_eq_getD (rom : Rom) (address : UInt8) :
    rom.read address = rom.words.toList.getD (address.toNat % 16) nop := by
  have hinside : address.toNat % 16 < rom.words.toList.length := by
    rw [Vector.length_toList]
    exact Nat.mod_lt _ (by decide)
  rw [List.getD_eq_getElem _ _ hinside]
  rfl

/-- The words of one memory are those that the texts of the other are assembled to. -/
def Reassembles (copy rom : Rom) : Prop :=
  ∀ address, copy.read address = reassembled (rom.read address)

theorem reassembles_of_ofProgram {copy rom : Rom}
    (hcopy : ofProgram (rom.words.toList.map reassembled) = .ok copy) : copy.Reassembles rom := by
  intro address
  rw [read_ofProgram hcopy, read_eq_getD, ← List.getD_map _ _ reassembled,
    Instruction.reassembled_nop]

end Rom

namespace Machine

/-- The machines differ at most in that the memory of one is the reassembled memory of the other. -/
def Alike (left right : Machine) : Prop :=
  left.rom.Reassembles right.rom ∧ left.state = right.state ∧ left.cycles = right.cycles

theorem lockstep_alike : Lockstep Alike where
  related_step := by
    rintro left right ⟨hrom, hstate, hcycles⟩
    refine ⟨hrom, ?_, ?_⟩
    · rw [state_step, state_step, next, next, word, word, hrom, hstate,
        Instruction.execute_decode_reassembled]
    · rw [cycles_step, cycles_step, hcycles]
  pc_eq := by
    rintro left right ⟨_, hstate, _⟩
    rw [hstate]
  isJump_eq := by
    rintro left right ⟨hrom, hstate, _⟩
    rw [next, next, word, word, hrom, hstate, Instruction.isJump_decode_reassembled]

theorem summary_run_of_alike {left right : Machine} (halike : Alike left right)
    (options : RunOptions) : (left.run options).summary = (right.run options).summary := by
  obtain ⟨⟨_, hstate, _⟩, hcycles, hstop⟩ := lockstep_alike.related_runFrom options.halt
    (fun _ _ => ()) (fun _ _ => ()) options.budget 0 () () halike
  simp only [run, runWith, Run.summary, hstate, hcycles, hstop]

end Machine

/-- The disassembly of any memory is assembled without diagnostics to a memory that behaves alike:
from the same state, the machines with the two go through the same states and all their runs have
the same summary. -/
theorem Rom.runs_alike_reassembled (rom : Rom) :
    (Assembly.ofLines (texts rom.words.toList)).diagnostics = [] ∧
      (Assembly.ofLines (texts rom.words.toList)).bytes.length = 16 ∧
      Assembly.ofText (disassembly rom.words.toList) =
        Assembly.ofLines (texts rom.words.toList) ∧
      ∃ copy, ofProgram (Assembly.ofLines (texts rom.words.toList)).bytes = .ok copy ∧
        ∀ state cycles,
          (∀ count,
            (Machine.step^[count] ⟨copy, state, cycles⟩).state =
                (Machine.step^[count] ⟨rom, state, cycles⟩).state ∧
              (Machine.step^[count] ⟨copy, state, cycles⟩).cycles =
                (Machine.step^[count] ⟨rom, state, cycles⟩).cycles) ∧
          ∀ options, ((⟨copy, state, cycles⟩ : Machine).run options).summary =
            ((⟨rom, state, cycles⟩ : Machine).run options).summary := by
  obtain ⟨hclean, hbytes⟩ := Assembly.ofLinesFrom_texts 1 rom.words.toList
  have hlength : (rom.words.toList.map reassembled).length = 16 := by
    rw [List.length_map, Vector.length_toList]
  obtain ⟨copy, hcopy⟩ := exists_ofProgram (Nat.le_of_eq hlength)
  rw [Assembly.ofLines, hbytes]
  refine ⟨hclean, hlength, Assembly.ofText_disassembly_eq _, copy, hcopy, ?_⟩
  intro state cycles
  have halike : Machine.Alike ⟨copy, state, cycles⟩ ⟨rom, state, cycles⟩ :=
    ⟨reassembles_of_ofProgram hcopy, rfl, rfl⟩
  refine ⟨fun count => ?_, Machine.summary_run_of_alike halike⟩
  exact (Machine.lockstep_alike.related_iterate halike count).2

/-- Words may change: `ADD R0, R0` has a bit that it does not look at, and `NOT R1` three. -/
example : reassembled 0b00000100 = 0b00000000 ∧ reassembled 0b11101110 = 0b11101000 := by decide

end EightBit
