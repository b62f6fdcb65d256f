import EightBit.Isa.Instruction

/-!
# The state of the machine

Four registers of eight bits, a program counter and a zero flag, and what each instruction does to
them. All arithmetic is modulo 256.
-/

namespace EightBit

@[ext] structure State where
  registers : Vector UInt8 4
  pc : UInt8
  zero : Bool
deriving DecidableEq, Repr

namespace Opcode

/-- The result of an operation on the value of its destination and its second operand. -/
def result : Opcode → UInt8 → UInt8 → UInt8
  | .add, a, b => a + b
  | .mul, a, b => a * b
  | .and, a, b => a &&& b
  | .or, a, b => a ||| b
  | .xor, a, b => a ^^^ b
  | .mov, _, b => b
  | .cmp, a, b => a - b
  | .not, a, _ => ~~~a

/-- Whether the result goes into the destination register. A comparison only sets the flag. -/
def stores : Opcode → Bool
  | .cmp => false
  | _ => true

/-- Whether the zero flag tells afterwards if the result was zero. A move leaves it alone. -/
def setsZero : Opcode → Bool
  | .mov => false
  | _ => true

end Opcode

namespace State

/-- The state before the first instruction. -/
def start : State where
  registers := .replicate 4 0
  pc := 0
  zero := false

def register (state : State) (register : Register) : UInt8 :=
  state.registers.get register

/-- The state with another value in one register. -/
def setRegister (state : State) (register : Register) (value : UInt8) : State :=
  { state with registers := state.registers.set register value }

/-- The second operand of an operation: the number in the operand field of a `MOV`, or else the
register that the field names. -/
def operand (state : State) (opcode : Opcode) (source : UInt8) : UInt8 :=
  match opcode, Instruction.immediate? source with
  | .mov, some value => value
  | _, _ => state.register (Register.ofField source)

def operate (state : State) (opcode : Opcode) (dest source : UInt8) : State :=
  let register := Register.ofField dest
  let result := opcode.result (state.register register) (state.operand opcode source)
  { registers := if opcode.stores then state.registers.set register result else state.registers
    pc := state.pc + 1
    zero := if opcode.setsZero then result == 0 else state.zero }

/-- The state after a jump, taken or not. -/
def jump (state : State) (condition : Condition) (target : UInt8) : State :=
  { state with pc := if condition.holds state.zero then target else state.pc + 1 }

def execute (state : State) : Instruction → State
  | .operation opcode dest source => state.operate opcode dest source
  | .jump condition target => state.jump condition target

end State

end EightBit
