import EightBit.Assembler.Operand
import EightBit.Proofs.Numeral

/-!
# Numbers in programs

`Literal.Denotes` gives the number that a token stands for, of any size. What is kept of a token
that is read holds the number modulo `2 ^ 32` with a mark that tells if that is less than the
number, and from both the bits under a mask and whether there are others can be told.
-/

namespace EightBit.Literal

/-- A token stands for a number: decimal digits with or without a `#` in front, or hexadecimal
digits after `#0x`. -/
inductive Denotes : Token → Nat → Prop
  | decimal {token : Token} {value : Nat} (hdigits : Numeral.Spells 10 token.toList value) :
      Denotes token value
  | marked {token : Token} {digits : List Char} {value : Nat}
      (htoken : token.toList = '#' :: digits) (hdigits : Numeral.Spells 10 digits value) :
      Denotes token value
  | hexadecimal {token : Token} {digits : List Char} {value : Nat} {x : Char}
      (hx : x = 'x' ∨ x = 'X') (htoken : token.toList = '#' :: '0' :: x :: digits)
      (hdigits : Numeral.Spells 16 digits value) : Denotes token value

/-- What is kept of a number: it modulo `2 ^ 32`, and whether that is less than the number. -/
structure Holds (literal : Literal) (value : Nat) : Prop where
  bits : literal.bits = UInt32.ofNat value
  overflowed : literal.overflowed = decide (UInt32.size ≤ value)

theorem Holds.eq_of_lt {literal : Literal} {value other : Nat} (hvalue : literal.Holds value)
    (hother : literal.Holds other) (hlt : value < UInt32.size) : other = value := by
  have hltOther : other < UInt32.size := by
    have hflags := hvalue.overflowed.symm.trans hother.overflowed
    simpa [Nat.not_le.mpr hlt] using hflags
  have hbits := congrArg UInt32.toNat (hother.bits.symm.trans hvalue.bits)
  rwa [UInt32.toNat_ofNat_of_lt' hltOther, UInt32.toNat_ofNat_of_lt' hlt] at hbits

/-! ## Reading -/

theorem push_ofNat {base : Nat} (hbase : 0 < base) (value digit : Nat) :
    push base (UInt32.ofNat value, decide (UInt32.size ≤ value)) digit =
      (UInt32.ofNat (value * base + digit), decide (UInt32.size ≤ value * base + digit)) := by
  have hle : value ≤ value * base := Nat.le_mul_of_pos_right value hbase
  simp only [push, UInt32.toNat_ofNat', Prod.mk.injEq]
  constructor
  · apply UInt32.toNat_inj.mp
    rw [UInt32.toNat_ofNat', UInt32.toNat_ofNat', Nat.add_mod, Nat.mod_mul_mod, ← Nat.add_mod]
  · by_cases hvalue : UInt32.size ≤ value
    · have hmore : UInt32.size ≤ value * base + digit := by omega
      simp [hvalue, hmore]
    · rw [Nat.mod_eq_of_lt (Nat.lt_of_not_le hvalue)]
      simp [hvalue]

theorem foldl_push {base : Nat} (hbase : 0 < base) (digits : List Nat) (value : Nat) :
    digits.foldl (push base) (UInt32.ofNat value, decide (UInt32.size ≤ value)) =
      (UInt32.ofNat (digits.foldl (fun number digit => number * base + digit) value),
        decide (UInt32.size ≤ digits.foldl (fun number digit => number * base + digit) value)) := by
  induction digits generalizing value with
  | nil => rfl
  | cons digit digits ih => rw [List.foldl_cons, push_ofNat hbase, ih, List.foldl_cons]

/-- Reading the digits of a number leaves what is kept of it. -/
theorem holds_foldl_push {base : Nat} (hbase : 0 < base) (digits : List Nat) (text : String) :
    Holds ⟨text, (digits.foldl (push base) (0, false)).1, (digits.foldl (push base) (0, false)).2⟩
      (Numeral.ofDigits base digits) := by
  have hfold := foldl_push hbase digits 0
  have hstart : ((UInt32.ofNat 0, decide (UInt32.size ≤ 0)) : UInt32 × Bool) = (0, false) := rfl
  rw [hstart] at hfold
  exact ⟨by rw [hfold]; rfl, by rw [hfold]; rfl⟩

theorem numeral?_hexadecimal {x : Char} (hx : x = 'x' ∨ x = 'X') (digits : List Char) :
    numeral? ('#' :: '0' :: x :: digits) = (Numeral.digits? 16 digits).map (16, ·) := by
  rcases hx with rfl | rfl
  · rfl
  · rfl

/-- Characters that do not begin like a hexadecimal number are read as decimal digits. -/
theorem numeral?_decimal {chars : List Char}
    (hchars : ∀ x digits, x = 'x' ∨ x = 'X' → chars ≠ '#' :: '0' :: x :: digits) :
    numeral? chars = (Numeral.digits? 10 (unmarked chars)).map (10, ·) := by
  rw [numeral?.eq_3]
  · rintro digits rfl
    exact hchars 'x' digits (Or.inl rfl) rfl
  · rintro digits rfl
    exact hchars 'X' digits (Or.inr rfl) rfl

theorem ofToken?_of_numeral? {token : Token} {base : Nat} {digits : List Nat} (hbase : 0 < base)
    (hnumeral : numeral? token.toList = some (base, digits)) :
    ∃ literal, ofToken? token = some literal ∧ literal.Holds (Numeral.ofDigits base digits) := by
  refine ⟨_, by rw [ofToken?, hnumeral]; rfl, ?_⟩
  exact holds_foldl_push hbase digits (String.ofList (unmarked token.toList))

/-- A token that stands for a number has its digits in the base that it is written in. -/
theorem numeral?_of_denotes {token : Token} {value : Nat} (hdenotes : Denotes token value) :
    ∃ base digits, 0 < base ∧ numeral? token.toList = some (base, digits) ∧
      Numeral.ofDigits base digits = value := by
  cases hdenotes with
  | decimal hspells =>
      have hplain : ∀ rest, token.toList ≠ '#' :: rest := by
        intro rest hrest
        rw [hrest] at hspells
        exact Numeral.value?_ne_none_of_mem hspells List.mem_cons_self (by decide)
      have hunmarked : unmarked token.toList = token.toList := by
        rw [unmarked.eq_2]
        exact hplain
      obtain ⟨digits, hdigits, rfl⟩ := hspells
      refine ⟨10, digits, by decide, ?_, rfl⟩
      rw [numeral?_decimal fun x rest _ => hplain _, hunmarked, hdigits]
      rfl
  | marked htoken hspells =>
      have hplain : ∀ x rest, x = 'x' ∨ x = 'X' → token.toList ≠ '#' :: '0' :: x :: rest := by
        intro x rest hx hrest
        rw [htoken] at hrest
        obtain ⟨_, rfl⟩ := List.cons.inj hrest
        have hvalue := Numeral.value?_ne_none_of_mem hspells
          (List.mem_cons_of_mem '0' (List.mem_cons_self (a := x)))
        rcases hx with rfl | rfl
        · exact hvalue (by decide)
        · exact hvalue (by decide)
      obtain ⟨digits, hdigits, rfl⟩ := hspells
      refine ⟨10, digits, by decide, ?_, rfl⟩
      rw [numeral?_decimal hplain, htoken, unmarked, hdigits]
      rfl
  | hexadecimal hx htoken hspells =>
      obtain ⟨digits, hdigits, rfl⟩ := hspells
      refine ⟨16, digits, by decide, ?_, rfl⟩
      rw [htoken, numeral?_hexadecimal hx, hdigits]
      rfl

/-- A token stands for one number at most. -/
theorem Denotes.unique {token : Token} {value other : Nat} (hvalue : Denotes token value)
    (hother : Denotes token other) : other = value := by
  obtain ⟨base, digits, _, hnumeral, rfl⟩ := numeral?_of_denotes hvalue
  obtain ⟨otherBase, otherDigits, _, hsame, rfl⟩ := numeral?_of_denotes hother
  obtain ⟨rfl, rfl⟩ := Prod.mk.inj (Option.some.inj (hsame.symm.trans hnumeral))
  rfl

/-- A token that stands for a number is read, and what is kept holds the number. -/
theorem ofToken?_of_denotes {token : Token} {value : Nat} (hdenotes : Denotes token value) :
    ∃ literal, ofToken? token = some literal ∧ literal.Holds value := by
  obtain ⟨base, digits, hbase, hnumeral, rfl⟩ := numeral?_of_denotes hdenotes
  exact ofToken?_of_numeral? hbase hnumeral

theorem denotes_of_numeral? {token : Token} {base : Nat} {digits : List Nat}
    (hnumeral : numeral? token.toList = some (base, digits)) :
    0 < base ∧ Denotes token (Numeral.ofDigits base digits) := by
  by_cases hhex : ∃ x chars, (x = 'x' ∨ x = 'X') ∧ token.toList = '#' :: '0' :: x :: chars
  · obtain ⟨x, chars, hx, htoken⟩ := hhex
    rw [htoken, numeral?_hexadecimal hx] at hnumeral
    obtain ⟨found, hfound, hpair⟩ := Option.map_eq_some_iff.mp hnumeral
    obtain ⟨rfl, rfl⟩ := Prod.mk.inj hpair
    exact ⟨by decide, .hexadecimal hx htoken ⟨found, hfound, rfl⟩⟩
  · rw [numeral?_decimal fun x chars hx htoken => hhex ⟨x, chars, hx, htoken⟩] at hnumeral
    obtain ⟨found, hfound, hpair⟩ := Option.map_eq_some_iff.mp hnumeral
    obtain ⟨rfl, rfl⟩ := Prod.mk.inj hpair
    refine ⟨by decide, ?_⟩
    by_cases hmark : ∃ rest, token.toList = '#' :: rest
    · obtain ⟨rest, htoken⟩ := hmark
      rw [htoken, unmarked] at hfound
      exact .marked htoken ⟨found, hfound, rfl⟩
    · rw [unmarked.eq_2 _ fun rest htoken => hmark ⟨rest, htoken⟩] at hfound
      exact .decimal ⟨found, hfound, rfl⟩

/-- A token that is read stands for a number, and what is kept of it holds that number. -/
theorem denotes_of_ofToken? {token : Token} {literal : Literal}
    (htoken : ofToken? token = some literal) :
    ∃ value, Denotes token value ∧ literal.Holds value := by
  obtain ⟨⟨base, digits⟩, hnumeral, rfl⟩ := Option.map_eq_some_iff.mp htoken
  obtain ⟨hbase, hdenotes⟩ := denotes_of_numeral? hnumeral
  exact ⟨_, hdenotes, holds_foldl_push hbase digits (String.ofList (unmarked token.toList))⟩

theorem text_of_ofToken? {token : Token} {literal : Literal}
    (htoken : ofToken? token = some literal) :
    literal.text = String.ofList (unmarked token.toList) := by
  obtain ⟨numeral, _, rfl⟩ := Option.map_eq_some_iff.mp htoken
  rfl

/-! ## Bits under a mask -/

section Masks

variable {literal : Literal} {value : Nat} {mask : UInt32} (width : Nat)

theorem toNat_masked (hholds : literal.Holds value) (hmask : mask.toNat = 2 ^ width - 1)
    (hwidth : width ≤ 8) : (literal.masked mask).toNat = value % 2 ^ width := by
  have hbyte : 2 ^ width ≤ 2 ^ 8 := Nat.pow_le_pow_right (by decide) hwidth
  have hword : 2 ^ width ∣ 2 ^ 32 := Nat.pow_dvd_pow 2 (by omega)
  have hsmall : value % 2 ^ width < 2 ^ 8 :=
    Nat.lt_of_lt_of_le (Nat.mod_lt value (Nat.two_pow_pos width)) hbyte
  rw [masked, UInt32.toNat_toUInt8, UInt32.toNat_and, hmask, Nat.and_two_pow_sub_one_eq_mod,
    hholds.bits, UInt32.toNat_ofNat', Nat.mod_mod_of_dvd _ hword, Nat.mod_eq_of_lt hsmall]

/-- The mask selects the low bits of a number. -/
theorem masked_eq_ofNat_mod (hholds : literal.Holds value) (hmask : mask.toNat = 2 ^ width - 1)
    (hwidth : width ≤ 8) : literal.masked mask = .ofNat (value % 2 ^ width) := by
  have hbyte : 2 ^ width ≤ 2 ^ 8 := Nat.pow_le_pow_right (by decide) hwidth
  have hlow : value % 2 ^ width < 2 ^ 8 :=
    Nat.lt_of_lt_of_le (Nat.mod_lt value (Nat.two_pow_pos width)) hbyte
  rw [← UInt8.toNat_inj, toNat_masked width hholds hmask hwidth, UInt8.toNat_ofNat_of_lt' hlow]

theorem exceeds_iff (hholds : literal.Holds value) (hmask : mask.toNat = 2 ^ width - 1)
    (hwidth : width ≤ 8) : literal.exceeds mask = true ↔ 2 ^ width ≤ value := by
  have hpos := Nat.two_pow_pos width
  have hbyte : 2 ^ width ≤ 2 ^ 8 := Nat.pow_le_pow_right (by decide) hwidth
  rw [exceeds, hholds.overflowed, hholds.bits, Bool.or_eq_true, decide_eq_true_iff,
    decide_eq_true_iff, UInt32.lt_iff_toNat_lt, hmask, UInt32.toNat_ofNat']
  by_cases hvalue : UInt32.size ≤ value
  · simp only [UInt32.size] at hvalue ⊢
    omega
  · rw [Nat.mod_eq_of_lt (Nat.lt_of_not_le hvalue)]
    omega

end Masks

end EightBit.Literal
