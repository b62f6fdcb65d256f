import EightBit.Numeral
import Mathlib.Data.Nat.Init
import Mathlib.Tactic.IntervalCases

/-!
# Reading numerals

What it means that characters are the digits of a number, and that a number written in decimal is
read as itself.
-/

namespace EightBit.Numeral

/-- The characters are the digits of a number, most significant first. -/
def Spells (base : Nat) (chars : List Char) (value : Nat) : Prop :=
  ∃ digits, digits? base chars = some digits ∧ ofDigits base digits = value

theorem digits?_eq_some_iff {base : Nat} {chars : List Char} {digits : List Nat} :
    digits? base chars = some digits ↔ chars ≠ [] ∧ chars.mapM (value? base) = some digits := by
  rw [digits?]
  split
  · rename_i hchars
    simp [hchars]
  · rename_i hchars
    simp [hchars]

/-- A character with no value as a digit spells no number. -/
theorem value?_ne_none_of_mem {base value : Nat} {chars : List Char}
    (hspells : Spells base chars value) {c : Char} (hc : c ∈ chars) : value? base c ≠ none := by
  obtain ⟨digits, hdigits, hvalue⟩ := hspells
  have hmap := (digits?_eq_some_iff.mp hdigits).2
  clear hdigits hvalue
  induction chars generalizing digits with
  | nil => simp at hc
  | cons head tail ih =>
      simp only [List.mapM_cons, Option.bind_eq_bind, Option.bind_eq_some_iff] at hmap
      obtain ⟨first, hfirst, rest, hrest, _⟩ := hmap
      rcases List.mem_cons.mp hc with rfl | htail
      · rw [hfirst]
        exact Option.some_ne_none first
      · exact ih htail rest hrest

theorem not_mem_of_spells {base value : Nat} {chars : List Char}
    (hspells : Spells base chars value) {c : Char} (hc : value? base c = none) : c ∉ chars :=
  fun hmem => value?_ne_none_of_mem hspells hmem hc

theorem spells_singleton {base digit : Nat} {c : Char} (hc : value? base c = some digit) :
    Spells base [c] digit := by
  refine ⟨[digit], ?_, ?_⟩
  · simp [digits?, hc]
  · simp [ofDigits]

theorem spells_snoc {base value digit : Nat} {chars : List Char} {c : Char}
    (hchars : Spells base chars value) (hc : value? base c = some digit) :
    Spells base (chars ++ [c]) (value * base + digit) := by
  obtain ⟨digits, hdigits, rfl⟩ := hchars
  obtain ⟨_, hmap⟩ := digits?_eq_some_iff.mp hdigits
  refine ⟨digits ++ [digit], digits?_eq_some_iff.mpr ⟨by simp, ?_⟩, ?_⟩
  · simp [List.mapM_append, hmap, hc]
  · simp [ofDigits, List.foldl_append]

theorem lt_of_value?_ne_none {base : Nat} {c : Char} (hvalue : value? base c ≠ none) :
    c.toNat < 128 := by
  rw [value?] at hvalue
  split at hvalue
  · rename_i hrange
    exact Nat.lt_of_le_of_lt (show c.toNat ≤ '9'.toNat from hrange.2) (by decide)
  · split at hvalue
    · rename_i hrange
      exact Nat.lt_of_le_of_lt (show c.toNat ≤ 'f'.toNat from hrange.2) (by decide)
    · split at hvalue
      · rename_i hrange
        exact Nat.lt_of_le_of_lt (show c.toNat ≤ 'F'.toNat from hrange.2) (by decide)
      · exact absurd rfl hvalue

theorem value?_digitChar {digit : Nat} (hdigit : digit < 10) :
    value? 10 digit.digitChar = some digit := by
  interval_cases digit <;> rfl

/-- A number in decimal spells itself. -/
theorem spells_decimal (n : Nat) : Spells 10 (decimal n).toList n := by
  rw [decimal, Nat.toList_repr]
  induction n using Nat.strong_induction_on with
  | h n ih =>
      rw [Nat.toDigits_eq_if (by decide)]
      by_cases hn : n < 10
      · rw [if_pos hn]
        exact spells_singleton (value?_digitChar hn)
      · rw [if_neg hn]
        have hdigit := value?_digitChar (Nat.mod_lt n (show 0 < 10 by decide))
        have hspells := spells_snoc (ih (n / 10) (by omega)) hdigit
        rwa [Nat.mul_comm, Nat.div_add_mod] at hspells

theorem not_mem_decimal {c : Char} (hc : value? 10 c = none) (n : Nat) :
    c ∉ (decimal n).toList :=
  not_mem_of_spells (spells_decimal n) hc

/-! ## Numbers of a fixed width -/

/-- A fixed number of digits spells the number modulo that power of the base. -/
theorem spells_fixedDigits {base : Nat} (hbase : base ≤ 16) (hpos : 0 < base) (width n : Nat) :
    Spells base (fixedDigits base (width + 1) n) (n % base ^ (width + 1)) := by
  induction width generalizing n with
  | zero =>
      rw [Nat.zero_add, Nat.pow_one]
      exact spells_singleton (value?_digit hbase (Nat.mod_lt n hpos))
  | succ width ih =>
      have hdigit := value?_digit hbase (Nat.mod_lt n hpos)
      have hspells := spells_snoc (ih (n / base)) hdigit
      rw [Nat.pow_succ', Nat.mod_mul, Nat.add_comm (n % base), Nat.mul_comm base]
      exact hspells

/-- The number that characters are the digits of. -/
def number? (base : Nat) (chars : List Char) : Option Nat :=
  (digits? base chars).map (ofDigits base)

theorem number?_eq_some_iff {base value : Nat} {chars : List Char} :
    number? base chars = some value ↔ Spells base chars value :=
  Option.map_eq_some_iff

theorem number?_decimal (n : Nat) : number? 10 (decimal n).toList = some n :=
  number?_eq_some_iff.mpr (spells_decimal n)

theorem number?_hex (byte : UInt8) : number? 16 (hex byte).toList = some byte.toNat := by
  have hspells := spells_fixedDigits (show 16 ≤ 16 by decide) (by decide) 1 byte.toNat
  rw [Nat.mod_eq_of_lt (show byte.toNat < 16 ^ 2 from byte.toNat_lt)] at hspells
  rw [hex, String.toList_ofList]
  exact number?_eq_some_iff.mpr hspells

/-- A byte is read back from as many bits as it needs. -/
theorem number?_binary_of_lt {width : Nat} {byte : UInt8} (hbyte : byte.toNat < 2 ^ (width + 1)) :
    number? 2 (binary (width + 1) byte).toList = some byte.toNat := by
  have hspells := spells_fixedDigits (show 2 ≤ 16 by decide) (by decide) width byte.toNat
  rw [Nat.mod_eq_of_lt hbyte] at hspells
  rw [binary, String.toList_ofList]
  exact number?_eq_some_iff.mpr hspells

theorem number?_binary (byte : UInt8) : number? 2 (binary 8 byte).toList = some byte.toNat :=
  number?_binary_of_lt byte.toNat_lt

theorem not_mem_hex {c : Char} (hc : value? 16 c = none) (byte : UInt8) : c ∉ (hex byte).toList :=
  not_mem_of_spells (number?_eq_some_iff.mp (number?_hex byte)) hc

theorem not_mem_binary {c : Char} (hc : value? 2 c = none) (width : Nat) (byte : UInt8) :
    c ∉ (binary (width + 1) byte).toList := by
  rw [binary, String.toList_ofList]
  exact not_mem_of_spells (spells_fixedDigits (by decide) (by decide) width byte.toNat) hc

theorem number?_bit (b : Bool) : number? 2 (bit b).toList = some b.toNat := by
  cases b <;> decide

theorem length_hex (byte : UInt8) : (hex byte).toList.length = 2 := by
  rw [hex, String.toList_ofList, length_fixedDigits]

theorem length_binary (width : Nat) (byte : UInt8) :
    (binary width byte).toList.length = width := by
  rw [binary, String.toList_ofList, length_fixedDigits]

theorem length_bit (b : Bool) : (bit b).toList.length = 1 := by
  cases b <;> rfl

end EightBit.Numeral
