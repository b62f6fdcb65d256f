/-!
# Numerals

Numbers as text: words with a fixed number of digits in base 2 or 16, and counts in decimal with as
many digits as they need. Digits above nine are written `A` to `F` and read in either case.
-/

namespace EightBit.Numeral

/-- The character for a digit below sixteen. -/
def digit (d : Nat) : Char :=
  if d < 10 then Char.ofNat ('0'.toNat + d) else Char.ofNat ('A'.toNat + (d - 10))

/-- The value of a character as a digit in the given base. -/
def value? (base : Nat) (c : Char) : Option Nat :=
  let value? :=
    if '0' ≤ c ∧ c ≤ '9' then some (c.toNat - '0'.toNat)
    else if 'a' ≤ c ∧ c ≤ 'f' then some (c.toNat - 'a'.toNat + 10)
    else if 'A' ≤ c ∧ c ≤ 'F' then some (c.toNat - 'A'.toNat + 10)
    else none
  value?.filter (· < base)

/-- The values of one or more digits. -/
def digits? (base : Nat) (chars : List Char) : Option (List Nat) :=
  if chars = [] then none else chars.mapM (value? base)

/-- The number with these digits, most significant first. -/
def ofDigits (base : Nat) (digits : List Nat) : Nat :=
  digits.foldl (fun number digit => number * base + digit) 0

/-- The last `width` digits of a number, most significant first. -/
def fixedDigits (base : Nat) : Nat → Nat → List Char
  | 0, _ => []
  | width + 1, n => fixedDigits base width (n / base) ++ [digit (n % base)]

/-- A byte in two hexadecimal digits. -/
def hex (byte : UInt8) : String :=
  String.ofList (fixedDigits 16 2 byte.toNat)

/-- The low bits of a byte in binary. -/
def binary (width : Nat) (byte : UInt8) : String :=
  String.ofList (fixedDigits 2 width byte.toNat)

def decimal (n : Nat) : String :=
  n.repr

def bit (b : Bool) : String :=
  if b then "1" else "0"

theorem length_fixedDigits (base width n : Nat) : (fixedDigits base width n).length = width := by
  induction width generalizing n with
  | zero => rfl
  | succ width ih => simp [fixedDigits, ih]

theorem value?_digit {base d : Nat} (hbase : base ≤ 16) (hd : d < base) :
    value? base (digit d) = some d := by
  have hall : ∀ d < 16, value? 16 (digit d) = some d := by decide
  have h := hall d (by omega)
  simp only [value?, Option.filter_eq_some_iff, decide_eq_true_eq] at h ⊢
  exact ⟨h.1, hd⟩

example : hex 0xA6 = "A6" ∧ binary 8 0x0A = "00001010" ∧ decimal 50 = "50" := by decide

end EightBit.Numeral
