import EightBit.Text.AsciiCase

/-!
# Opcodes and jump conditions

A word has three opcode bits, and all eight opcodes work on registers. The three jumps have no
opcode of their own: each borrows one, and a word with that opcode is a jump when its destination
field is `3`. So `OR`, `XOR` and `CMP` cannot have `R3` as their destination.
-/

namespace EightBit

/-- The operations on registers, in the order of their bits. -/
inductive Opcode where
  | add | mul | and | or | xor | mov | cmp | not
deriving DecidableEq, Repr

/-- When a jump is taken. -/
inductive Condition where
  | always | zero | nonzero
deriving DecidableEq, Repr

namespace Condition

def all : List Condition := [.always, .zero, .nonzero]

def mnemonic : Condition → String
  | .always => "JMP"
  | .zero => "JZ"
  | .nonzero => "JNZ"

/-- The condition with this mnemonic, in either case. -/
def ofMnemonic? (name : String) : Option Condition :=
  all.find? fun condition => Text.alike condition.mnemonic name

/-- The opcode that the jump borrows. -/
def opcode : Condition → Opcode
  | .always => .or
  | .zero => .xor
  | .nonzero => .cmp

/-- Whether a jump is taken when the zero flag is as given. -/
def holds : Condition → Bool → Bool
  | .always, _ => true
  | .zero, flag => flag
  | .nonzero, flag => !flag

end Condition

namespace Opcode

def all : List Opcode := [.add, .mul, .and, .or, .xor, .mov, .cmp, .not]

def mnemonic : Opcode → String
  | .add => "ADD"
  | .mul => "MUL"
  | .and => "AND"
  | .or => "OR"
  | .xor => "XOR"
  | .mov => "MOV"
  | .cmp => "CMP"
  | .not => "NOT"

/-- The opcode with this mnemonic, in either case. -/
def ofMnemonic? (name : String) : Option Opcode :=
  all.find? fun opcode => Text.alike opcode.mnemonic name

def bits : Opcode → UInt8
  | .add => 0
  | .mul => 1
  | .and => 2
  | .or => 3
  | .xor => 4
  | .mov => 5
  | .cmp => 6
  | .not => 7

/-- The opcode with these three low bits. -/
def ofBits (bits : UInt8) : Opcode :=
  match bits.toNat % 8 with
  | 0 => .add
  | 1 => .mul
  | 2 => .and
  | 3 => .or
  | 4 => .xor
  | 5 => .mov
  | 6 => .cmp
  | _ => .not

theorem ofBits_bits (opcode : Opcode) : ofBits opcode.bits = opcode := by
  cases opcode <;> rfl

/-- The condition of the jump that borrows this opcode. -/
def borrower? : Opcode → Option Condition
  | .or => some .always
  | .xor => some .zero
  | .cmp => some .nonzero
  | .add | .mul | .and | .mov | .not => none

theorem borrower?_eq_some_iff {opcode : Opcode} {condition : Condition} :
    opcode.borrower? = some condition ↔ opcode = condition.opcode := by
  cases opcode <;> cases condition <;> decide

/-- The destination field that makes a jump of a word with a borrowed opcode. -/
def jumpMark : UInt8 := 3

/-- The condition of the jump that a word with this opcode and destination field is. -/
def jump? (opcode : Opcode) (dest : UInt8) : Option Condition :=
  if dest = jumpMark then opcode.borrower? else none

/-- Whether the opcode computes a result from two registers. -/
def isBinary : Opcode → Bool
  | .add | .mul | .and | .or | .xor => true
  | .mov | .cmp | .not => false

end Opcode

end EightBit
