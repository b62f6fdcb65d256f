/-!
# The fields of a word

An instruction word holds three fields, from the high bits to the low ones: three bits of opcode,
two of destination and three of operand.
-/

namespace EightBit

/-- The fields of a word. Only the bits that fit into its field count of each member. -/
structure Fields where
  opcode : UInt8
  dest : UInt8
  operand : UInt8
deriving DecidableEq, Repr

namespace Fields

/-- The fields with every member cut to the bits of its field. -/
def cut (fields : Fields) : Fields where
  opcode := fields.opcode &&& 0b111
  dest := fields.dest &&& 0b11
  operand := fields.operand &&& 0b111

def ofWord (word : UInt8) : Fields :=
  cut ⟨word >>> 5, word >>> 3, word⟩

def toWord (fields : Fields) : UInt8 :=
  (fields.cut.opcode <<< 5) ||| (fields.cut.dest <<< 3) ||| fields.cut.operand

example : ofWord 0b10101101 = ⟨5, 1, 5⟩ ∧ toWord ⟨5, 1, 5⟩ = 0b10101101 := by decide

/-- A member that is too wide does not leak into the field above it. -/
example : toWord ⟨0, 7, 9⟩ = 0b00011001 := by decide

end Fields

end EightBit
