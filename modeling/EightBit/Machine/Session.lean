import EightBit.Machine.Trace

/-!
# Sessions

Everything that can be done to a machine from outside, as data, with the answer that it gives.
-/

namespace EightBit

inductive Operation where
  | step
  | peek
  | trace
  | run (options : RunOptions)
  | tracedRun (options : RunOptions)
  | reset
  | setRegister (register : Register) (value : UInt8)
  | setPc (pc : UInt8)
  | setZero (zero : Bool)
deriving DecidableEq, Repr

/-- What an operation tells besides the state it leaves. -/
inductive Answer where
  | nothing
  | instruction (instruction : Instruction)
  | line (line : String)
  | summary (summary : Summary)
  | traced (summary : Summary) (lines : Array String)
deriving DecidableEq, Repr

namespace Machine

/-- The answer to an operation, and the machine after it. -/
def perform (machine : Machine) : Operation → Answer × Machine
  | .step => (.instruction machine.next, machine.step)
  | .peek => (.instruction machine.next, machine)
  | .trace => (.line machine.trace, machine)
  | .run options =>
    let run := machine.run options
    (.summary run.summary, run.machine)
  | .tracedRun options =>
    let run := machine.tracedRun options
    (.traced run.summary run.gathered, run.machine)
  | .reset => (.nothing, machine.reset)
  | .setRegister register value =>
    (.nothing, { machine with state := machine.state.setRegister register value })
  | .setPc pc => (.nothing, { machine with state := { machine.state with pc } })
  | .setZero zero => (.nothing, { machine with state := { machine.state with zero } })

/-- The answers to a list of operations, each with the machine after it. -/
def session (machine : Machine) : List Operation → List (Answer × Machine)
  | [] => []
  | operation :: rest =>
    let answer := machine.perform operation
    answer :: answer.2.session rest

end Machine

end EightBit
