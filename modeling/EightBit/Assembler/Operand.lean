import EightBit.Assembler.Token
import EightBit.Isa.Instruction

/-!
# Operands

An operand is the name of a register or a number. A number is `#0x` and hexadecimal digits, or
decimal digits with or without a `#`, and may have any number of digits: its value is kept modulo
`2 ^ 32`, with a mark when that loses something.
-/

namespace EightBit

def Register.ofToken? (token : Token) : Option Register :=
  match token.toList with
  | [letter, number] =>
    if letter.toLower = 'r' then
      match number with
      | '0' => some 0
      | '1' => some 1
      | '2' => some 2
      | '3' => some 3
      | _ => none
    else none
  | _ => none

/-- A number as it is written in a program. -/
structure Literal where
  /-- The digits and the sign of their base, without a leading `#`. -/
  text : String
  /-- The low bits of the number. -/
  bits : UInt32
  /-- Whether the number has more bits than `bits` holds. -/
  overflowed : Bool
deriving DecidableEq, Repr

namespace Literal

/-- The low bits of a number, and whether it has more, after one more digit. -/
def push (base : Nat) (number : UInt32 × Bool) (digit : Nat) : UInt32 × Bool :=
  let value := number.1.toNat * base + digit
  (UInt32.ofNat value, number.2 || decide (UInt32.size ≤ value))

/-- The characters of a number without the `#` in front. -/
def unmarked : List Char → List Char
  | '#' :: rest => rest
  | chars => chars

def numeral? (chars : List Char) : Option (Nat × List Nat) :=
  match chars with
  | '#' :: '0' :: 'x' :: digits | '#' :: '0' :: 'X' :: digits =>
    (Numeral.digits? 16 digits).map (16, ·)
  | _ => (Numeral.digits? 10 (unmarked chars)).map (10, ·)

def ofToken? (token : Token) : Option Literal :=
  (numeral? token.toList).map fun (base, digits) =>
    let number := digits.foldl (push base) (0, false)
    { text := String.ofList (unmarked token.toList), bits := number.1, overflowed := number.2 }

/-- The bits of the number that a mask selects. -/
def masked (literal : Literal) (mask : UInt32) : UInt8 :=
  (literal.bits &&& mask).toUInt8

/-- Whether the number has bits above those of a mask. -/
def exceeds (literal : Literal) (mask : UInt32) : Bool :=
  literal.overflowed || decide (mask < literal.bits)

example : ofToken? "#0x1F" = some ⟨"0x1F", 31, false⟩ := by decide

example : ofToken? "4294967299" = some ⟨"4294967299", 3, true⟩ := by decide

example : ["#", "##1", "#0x", "0x1", "-1"].map ofToken? = [none, none, none, none, none] := by
  decide

end Literal

end EightBit
