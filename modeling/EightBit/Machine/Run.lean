import EightBit.Machine.Basic

/-!
# Runs

A run executes instructions until it has spent its budget, the program counter has left the memory,
or a halt condition holds. The first two are asked before an instruction, in this order, and the
halt condition after it.
-/

namespace EightBit

/-- When a run halts of its own accord. -/
inductive Halt where
  | never
  /-- At an address, once more than `cycles` instructions of the run have been executed. -/
  | atAddress (pc : UInt8) (cycles : Nat)
  /-- At a jump to its own address. -/
  | selfLoop
deriving DecidableEq, Repr

/-- Whether a run halts after an instruction that moved the program counter from `before` to
`after` and was the last of `cycles`. -/
def Halt.holds (halt : Halt) (instruction : Instruction) (before after : UInt8) (cycles : Nat) :
    Bool :=
  match halt with
  | .never => false
  | .atAddress pc least => after == pc && decide (least < cycles)
  | .selfLoop => instruction.isJump && after == before

/-- The most instructions that a run may execute, and when it halts before that. -/
structure RunOptions where
  budget : Nat := 50
  halt : Halt := .never
deriving DecidableEq, Repr

inductive Stop where
  | budgetSpent
  | outOfRange
  | halted
deriving DecidableEq, Repr

/-- The name of the reason in a report. -/
def Stop.name : Stop → String
  | .budgetSpent => "MaxCycles"
  | .outOfRange => "PcOutOfRange"
  | .halted => "Halted"

/-- What is reported of a run: the last state, the number of instructions and why it ended. -/
structure Summary where
  state : State
  cycles : Nat
  stop : Stop
deriving DecidableEq, Repr

/-- A run that has ended, with what was gathered on the way. -/
structure Run (α : Type) where
  machine : Machine
  cycles : Nat
  stop : Stop
  gathered : α

def Run.summary {α : Type} (run : Run α) : Summary where
  state := run.machine.state
  cycles := run.cycles
  stop := run.stop

namespace Machine

variable {α : Type}

/-- The rest of a run that has executed `cycles` instructions and may execute `budget` more. Before
each of them `visit` is shown the machine. -/
def runFrom (halt : Halt) (visit : α → Machine → α) :
    (budget cycles : Nat) → α → Machine → Run α
  | 0, cycles, gathered, machine => ⟨machine, cycles, .budgetSpent, gathered⟩
  | budget + 1, cycles, gathered, machine =>
    if machine.inRange then
      let gathered := visit gathered machine
      let after := machine.step
      if halt.holds machine.next machine.state.pc after.state.pc (cycles + 1) then
        ⟨after, cycles + 1, .halted, gathered⟩
      else runFrom halt visit budget (cycles + 1) gathered after
    else ⟨machine, cycles, .outOfRange, gathered⟩

/-- A run that shows `visit` the machine before each instruction. -/
def runWith (options : RunOptions) (visit : α → Machine → α) (gathered : α) (machine : Machine) :
    Run α :=
  runFrom options.halt visit options.budget 0 gathered machine

def run (options : RunOptions) (machine : Machine) : Run Unit :=
  machine.runWith options (fun _ _ => ()) ()

end Machine

end EightBit
