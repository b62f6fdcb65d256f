import EightBit.Assembler.Statement

/-!
# Reference encodings

Lines whose words were worked out by hand, and what the assembler makes of them.
-/

namespace EightBit

/-- A line and the word that it has to have. -/
structure Reference where
  line : String
  expected : UInt8
deriving DecidableEq, Repr

namespace Reference

/-- The reference encodings, one for each form of instruction. -/
def all : List Reference :=
  [⟨"MOV R1, #1", 0b10101101⟩,
   ⟨"MOV R2, R1", 0b10110001⟩,
   ⟨"ADD R1, R2", 0b00001010⟩,
   ⟨"MUL R2, R1", 0b00110001⟩,
   ⟨"JMP 7", 0b01111111⟩,
   ⟨"JZ 3", 0b10011011⟩,
   ⟨"CMP R1, R2", 0b11001010⟩]

def actual? (reference : Reference) : Option UInt8 :=
  match encodeLine reference.line with
  | .ok (some encoding) => some encoding.word
  | _ => none

def agrees (reference : Reference) : Bool :=
  reference.actual? == some reference.expected

example : all.all agrees = true := by decide

end Reference

end EightBit
