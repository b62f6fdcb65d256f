import EightBit.Machine.State
import EightBit.Rom.Basic

/-!
# The machine

A machine executes the words of its instruction memory and counts the instructions. The program
counter is wider than an address of the memory, so beyond the last address the words come round
again.
-/

namespace EightBit

/-- An instruction memory with a state and the number of instructions since the start. -/
@[ext] structure Machine where
  rom : Rom
  state : State
  cycles : UInt32
deriving DecidableEq, Repr

namespace Machine

/-- The machine before its first instruction. -/
def start (rom : Rom) : Machine where
  rom := rom
  state := State.start
  cycles := 0

/-- The machine with everything but its memory as at the start. -/
def reset (machine : Machine) : Machine :=
  start machine.rom

/-- Whether the program counter is an address of the memory. -/
def inRange (machine : Machine) : Bool :=
  machine.state.pc < 16

/-- The word at the program counter. -/
def word (machine : Machine) : UInt8 :=
  machine.rom.read machine.state.pc

def next (machine : Machine) : Instruction :=
  Instruction.decode machine.word

def step (machine : Machine) : Machine where
  rom := machine.rom
  state := machine.state.execute machine.next
  cycles := machine.cycles + 1

@[simp] theorem rom_step (machine : Machine) : machine.step.rom = machine.rom := rfl

@[simp] theorem state_step (machine : Machine) :
    machine.step.state = machine.state.execute machine.next := rfl

@[simp] theorem cycles_step (machine : Machine) : machine.step.cycles = machine.cycles + 1 := rfl

@[simp] theorem rom_reset (machine : Machine) : machine.reset.rom = machine.rom := rfl

end Machine

end EightBit
