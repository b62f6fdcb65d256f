import EightBit.Isa.Instruction

/-!
# Instruction memory

A read-only memory of sixteen words. Its address is four bits wide, so a longer address reads the
word at its four low bits.
-/

namespace EightBit

/-- The words of the instruction memory, by address. -/
structure Rom where
  words : Vector UInt8 16
deriving DecidableEq, Repr

/-- A program with more words than the memory holds. -/
structure ProgramTooLarge where
  size : Nat
deriving DecidableEq, Repr

def ProgramTooLarge.message (error : ProgramTooLarge) : String :=
  "program has " ++ Numeral.decimal error.size ++ " words, the ROM holds at most 16"

namespace Rom

def empty : Rom where
  words := .replicate 16 nop

/-- The memory with a program from address `0` on and `nop` behind it. -/
def ofProgram (program : List UInt8) : Except ProgramTooLarge Rom :=
  if h : program.length ≤ 16 then
    .ok ⟨(program.rightpad 16 nop).toArray, by simp; omega⟩
  else .error ⟨program.length⟩

def read (rom : Rom) (address : UInt8) : UInt8 :=
  rom.words.get ⟨address.toNat % 16, Nat.mod_lt _ (by decide)⟩

example : (ofProgram [0xA6, 0xAF]).toOption.map (·.read 0x31) = some 0xAF := by decide

end Rom

end EightBit
