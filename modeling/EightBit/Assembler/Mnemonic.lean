import EightBit.Isa.Opcode

/-!
# Mnemonics

The names that may begin a line, and how many operands each takes.
-/

namespace EightBit

/-- The first word of an instruction. -/
inductive Mnemonic where
  | nop
  | mov
  | not
  | cmp
  /-- One of the opcodes that compute a result from two registers. -/
  | binary (opcode : Opcode)
  | jump (condition : Condition)
deriving DecidableEq, Repr

namespace Mnemonic

def ofOpcode : Opcode → Mnemonic
  | .mov => .mov
  | .not => .not
  | .cmp => .cmp
  | opcode => .binary opcode

/-- The mnemonic with a name in upper case. -/
def ofName? (name : String) : Option Mnemonic :=
  if name = "NOP" then some .nop
  else
    match Condition.ofMnemonic? name with
    | some condition => some (.jump condition)
    | none => (Opcode.ofMnemonic? name).map ofOpcode

def arity : Mnemonic → Nat
  | .nop => 0
  | .not | .jump _ => 1
  | .mov | .cmp | .binary _ => 2

example : ["NOP", "JZ", "XOR", "NOT", "J"].map ofName? =
    [some .nop, some (.jump .zero), some (.binary .xor), some .not, none] := by decide

end Mnemonic

end EightBit
