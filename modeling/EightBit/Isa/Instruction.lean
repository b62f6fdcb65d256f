import EightBit.Isa.Fields
import EightBit.Isa.Opcode
import EightBit.Numeral

/-!
# Instructions

A word is an operation on registers or a jump. Which of the two is settled once, when the word is
decoded. Every word is an instruction, and every instruction has a text in the notation that the
assembler reads.
-/

namespace EightBit

/-- The number of a register, `R0` to `R3`. -/
abbrev Register := Fin 4

/-- The register that a field names by its two low bits. -/
def Register.ofField (field : UInt8) : Register :=
  ⟨field.toNat % 4, Nat.mod_lt _ (by decide)⟩

/-- An operation or a jump. The members stand for fields of the word, and of each of them only the
bits of its field are encoded. -/
inductive Instruction where
  | operation (opcode : Opcode) (dest source : UInt8)
  | jump (condition : Condition) (target : UInt8)
deriving DecidableEq, Repr

namespace Instruction

/-- Operand fields of `MOV` from this value on hold an immediate number instead of a register. -/
def immediateBase : UInt8 := 4

/-- The immediate number in an operand field of `MOV`. -/
def immediate? (source : UInt8) : Option UInt8 :=
  if immediateBase ≤ source then some (source - immediateBase) else none

def fields : Instruction → Fields
  | .operation opcode dest source => Fields.cut ⟨opcode.bits, dest, source⟩
  | .jump condition target => Fields.cut ⟨condition.opcode.bits, Opcode.jumpMark, target⟩

def encode (instruction : Instruction) : UInt8 :=
  instruction.fields.toWord

def decode (word : UInt8) : Instruction :=
  let fields := Fields.ofWord word
  let opcode := Opcode.ofBits fields.opcode
  match opcode.jump? fields.dest with
  | some condition => .jump condition fields.operand
  | none => .operation opcode fields.dest fields.operand

def isJump : Instruction → Bool
  | .jump .. => true
  | .operation .. => false

def registerName (number : Nat) : String :=
  "R" ++ Numeral.decimal number

/-- The instruction as a line of assembler text. -/
def text : Instruction → String
  | .jump condition target => condition.mnemonic ++ " " ++ Numeral.decimal target.toNat
  | .operation .not dest _ => Opcode.not.mnemonic ++ " " ++ registerName dest.toNat
  | .operation opcode dest source =>
    opcode.mnemonic ++ " " ++ registerName dest.toNat ++ ", " ++
      match opcode, immediate? source with
      | .mov, some value => "#" ++ Numeral.decimal value.toNat
      | _, _ => registerName (Register.ofField source)

example : (decode 0xA6).text = "MOV R0, #2" ∧ (decode 0xF8).text = "NOT R3" := by decide

/-- The word of `OR R3, R1` is a jump. -/
example : decode (encode (.operation .or 3 1)) = .jump .always 1 := by decide

end Instruction

/-- The word that stands where a program has no instruction. It adds `R0` to itself. -/
def nop : UInt8 := 0

end EightBit
