import EightBit.Machine.Run
import EightBit.Text.Column

/-!
# Traces

One line about a machine that is about to execute an instruction: where it stands, the word and its
text, the registers, the flag and the number of instructions so far.
-/

namespace EightBit

def State.registerText (state : State) : String :=
  " ".intercalate (state.registers.toList.zipIdx.map fun (value, number) =>
    Instruction.registerName number ++ ":" ++ Numeral.hex value)

namespace Machine

def trace (machine : Machine) : String :=
  "PC:" ++ Numeral.hex machine.state.pc ++
    "  " ++ Numeral.hex machine.word ++
    "  " ++ Numeral.binary 8 machine.word ++
    "  " ++ Text.leftAligned 12 machine.next.text ++
    machine.state.registerText ++
    " Z:" ++ Numeral.bit machine.state.zero ++
    " CYC:" ++ Numeral.decimal machine.cycles.toNat

/-- A run with the trace line of the machine before each instruction. -/
def tracedRun (options : RunOptions) (machine : Machine) : Run (Array String) :=
  machine.runWith options (fun lines machine => lines.push machine.trace) #[]

example :
    (Rom.ofProgram [0xA6]).toOption.map (fun rom => (start rom).trace) =
      some "PC:00  A6  10100110  MOV R0, #2  R0:00 R1:00 R2:00 R3:00 Z:0 CYC:0" := by
  decide

end Machine

end EightBit
