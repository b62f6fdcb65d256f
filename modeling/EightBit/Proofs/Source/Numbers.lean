import EightBit.Proofs.Source.Outcome

/-!
# Numbers of any size

A number in a program may have any number of digits. What is kept of it is exact modulo `2 ^ 32` and
marked when that is not all of it, and this is what arithmetic in words of 32 bits comes to. So the
word of a line has the low bits of its number, and the warning is there when those are not all of
it, however the number is written.
-/

namespace EightBit

namespace Literal

/-! ## Words of 32 bits -/

/-- The product of two words, if it is a word. -/
def checkedMul (a b : UInt32) : Option UInt32 :=
  if a.toNat * b.toNat < UInt32.size then some (a * b) else none

/-- The sum of two words, if it is a word. -/
def checkedAdd (a b : UInt32) : Option UInt32 :=
  if a.toNat + b.toNat < UInt32.size then some (a + b) else none

/-- The low bits of a number and its mark after one more digit, in arithmetic of words. A product or
a sum that is too large is cut to a word and leaves the mark. -/
def pushWord (base : UInt32) (number : UInt32 × Bool) (digit : UInt32) : UInt32 × Bool :=
  match (checkedMul number.1 base).bind (checkedAdd · digit) with
  | some value => (value, number.2)
  | none => (number.1 * base + digit, true)

theorem ofNat_mul_add (a b c : UInt32) :
    UInt32.ofNat (a.toNat * b.toNat + c.toNat) = a * b + c := by
  rw [UInt32.ofNat_add, UInt32.ofNat_mul, UInt32.ofNat_toNat, UInt32.ofNat_toNat,
    UInt32.ofNat_toNat]

/-- Taking one more digit needs no more than words. -/
theorem push_eq_pushWord (base digit : UInt32) (number : UInt32 × Bool) :
    push base.toNat number digit.toNat = pushWord base number digit := by
  rw [push, pushWord, ofNat_mul_add]
  by_cases hproduct : number.1.toNat * base.toNat < UInt32.size
  · have hmul : checkedMul number.1 base = some (number.1 * base) := if_pos hproduct
    have hexact : (number.1 * base).toNat = number.1.toNat * base.toNat := by
      rw [UInt32.toNat_mul, Nat.mod_eq_of_lt hproduct]
    rw [hmul, Option.bind_some, checkedAdd, hexact]
    by_cases hsum : number.1.toNat * base.toNat + digit.toNat < UInt32.size
    · rw [if_pos hsum, decide_eq_false (Nat.not_le.mpr hsum), Bool.or_false]
    · rw [if_neg hsum, decide_eq_true (Nat.not_lt.mp hsum), Bool.or_true]
  · have hmul : checkedMul number.1 base = none := if_neg hproduct
    have hlarge : UInt32.size ≤ number.1.toNat * base.toNat + digit.toNat :=
      Nat.le_add_right_of_le (Nat.not_lt.mp hproduct)
    rw [hmul, Option.bind_none, decide_eq_true hlarge, Bool.or_true]

/-- All the digits of a number can be taken in words. -/
theorem foldl_push_eq_foldl_pushWord (base : UInt32) (digits : List UInt32)
    (number : UInt32 × Bool) :
    (digits.map UInt32.toNat).foldl (push base.toNat) number =
      digits.foldl (pushWord base) number := by
  induction digits generalizing number with
  | nil => rfl
  | cons digit digits ih =>
      rw [List.map_cons, List.foldl_cons, List.foldl_cons, push_eq_pushWord, ih]

/-! ## Tokens -/

/-- What is kept of a token that stands for a number. -/
structure Keeps (literal : Literal) (token : Token) (value : Nat) : Prop where
  /-- The token without the `#` in front of it. -/
  text : literal.text = String.ofList (unmarked token.toList)
  bits : literal.bits.toNat = value % 2 ^ 32
  overflowed : literal.overflowed = true ↔ 2 ^ 32 ≤ value

theorem Keeps.unique {literal other : Literal} {token : Token} {value : Nat}
    (hliteral : literal.Keeps token value) (hother : other.Keeps token value) :
    other = literal := by
  cases literal
  cases other
  rw [mk.injEq]
  refine ⟨hother.text.trans hliteral.text.symm, ?_, ?_⟩
  · exact UInt32.toNat_inj.mp (hother.bits.trans hliteral.bits.symm)
  · exact Bool.eq_iff_iff.mpr (hother.overflowed.trans hliteral.overflowed.symm)

theorem keeps_of_holds {literal : Literal} {token : Token} {value : Nat}
    (hliteral : ofToken? token = some literal) (hholds : literal.Holds value) :
    literal.Keeps token value where
  text := text_of_ofToken? hliteral
  bits := by rw [hholds.bits, UInt32.toNat_ofNat']
  overflowed := by rw [hholds.overflowed, decide_eq_true_iff]; rfl

/-- The tokens that are read are those that stand for a number, and each stands for one. -/
theorem ofToken?_eq_some_iff {token : Token} {literal : Literal} :
    ofToken? token = some literal ↔
      ∃ value, (∀ other, Denotes token other ↔ other = value) ∧ literal.Keeps token value := by
  constructor
  · intro hliteral
    obtain ⟨value, hdenotes, hholds⟩ := denotes_of_ofToken? hliteral
    refine ⟨value, fun other => ⟨hdenotes.unique, ?_⟩, keeps_of_holds hliteral hholds⟩
    rintro rfl
    exact hdenotes
  · rintro ⟨value, hvalue, hkeeps⟩
    obtain ⟨found, hfound, hholds⟩ := ofToken?_of_denotes ((hvalue value).mpr rfl)
    rw [(keeps_of_holds hfound hholds).unique hkeeps, hfound]

end Literal

/-! ## Lines -/

section Lines

variable {line : String} {tokens : List Token} {name first second : Token} {dest : Register}
  {condition : Condition} {value : Nat}

theorem encodeLine_load (hline : Token.Reads line [name, first, second])
    (hspelled : Intent.Spelled [name, first, second] (.load dest value)) :
    ∃ encoding source, encodeLine line = .ok (some encoding) ∧
      Instruction.decode encoding.word = .operation .mov (.ofNat dest) source ∧
      Instruction.immediate? source = some (.ofNat (value % 4)) ∧
      encoding.warnings = if 3 < value then
        [.immediateTruncated (String.ofList (Literal.unmarked second.toList)) (.ofNat (value % 4))]
      else [] := by
  have hfits : Intent.Fits (.load dest (value % 4)) := Nat.mod_lt value (by decide)
  rw [Token.reads_iff] at hline
  rw [← hline] at hspelled
  refine ⟨_, _, Outcome.encodeLine_of_spelled hspelled (by rw [hline]; rfl), ?_,
    Instruction.immediate?_add_base hfits, rfl⟩
  exact Instruction.decode_encode (Intent.instruction_valid hfits)

theorem encodeLine_jump (hline : Token.Reads line [name, first])
    (hspelled : Intent.Spelled [name, first] (.jump condition value)) :
    ∃ encoding, encodeLine line = .ok (some encoding) ∧
      Instruction.decode encoding.word = .jump condition (.ofNat (value % 8)) ∧
      encoding.warnings = if 7 < value then
        [.targetTruncated (String.ofList (Literal.unmarked first.toList)) (.ofNat (value % 8))]
      else [] := by
  have hfits : Intent.Fits (.jump condition (value % 8)) := Nat.mod_lt value (by decide)
  rw [Token.reads_iff] at hline
  rw [← hline] at hspelled
  refine ⟨_, Outcome.encodeLine_of_spelled hspelled (by rw [hline]; rfl), ?_, rfl⟩
  exact Instruction.decode_encode (Intent.instruction_valid hfits)

/-- The word of a line depends on what it asks for and not on how that is written. -/
theorem word_of_spelled {intent : Intent} (hline : Token.Reads line tokens)
    (hspelled : Intent.Spelled tokens intent) :
    (encodeLine line).map (·.map Encoding.word) = .ok (some intent.held.instruction.encode) := by
  have hne : tokens ≠ [] := by cases hspelled <;> simp
  rw [Token.reads_iff] at hline
  subst hline
  rw [Outcome.encodeLine_of_spelled hspelled (List.getLast?_eq_some_getLast hne)]
  rfl

end Lines

/-- A token that is read as a number is kept modulo `2 ^ 32`, with a mark when that is less than the
number, and reading it takes arithmetic of words only. A line with a number has the word of its low
bits, with a warning when there are others, and all ways to write the number give the same word. -/
theorem numbers_of_any_size :
    (∀ (base : UInt32) (digits : List UInt32),
        (digits.map UInt32.toNat).foldl (Literal.push base.toNat) (0, false) =
          digits.foldl (Literal.pushWord base) (0, false)) ∧
      (∀ token literal, Literal.ofToken? token = some literal ↔
        ∃ value, (∀ other, Literal.Denotes token other ↔ other = value) ∧
          literal.Keeps token value) ∧
      (∀ line name first second dest value, Token.Reads line [name, first, second] →
        Intent.Spelled [name, first, second] (.load dest value) →
        ∃ encoding source, encodeLine line = .ok (some encoding) ∧
          Instruction.decode encoding.word = .operation .mov (.ofNat dest) source ∧
          Instruction.immediate? source = some (.ofNat (value % 4)) ∧
          encoding.warnings = if 3 < value then
            [.immediateTruncated (String.ofList (Literal.unmarked second.toList))
              (.ofNat (value % 4))]
          else []) ∧
      (∀ line name first condition value, Token.Reads line [name, first] →
        Intent.Spelled [name, first] (.jump condition value) →
        ∃ encoding, encodeLine line = .ok (some encoding) ∧
          Instruction.decode encoding.word = .jump condition (.ofNat (value % 8)) ∧
          encoding.warnings = if 7 < value then
            [.targetTruncated (String.ofList (Literal.unmarked first.toList)) (.ofNat (value % 8))]
          else []) ∧
      ∀ left right tokens others intent, Token.Reads left tokens → Token.Reads right others →
        Intent.Spelled tokens intent → Intent.Spelled others intent →
        ∃ word, (encodeLine left).map (·.map Encoding.word) = .ok (some word) ∧
          (encodeLine right).map (·.map Encoding.word) = .ok (some word) := by
  refine ⟨fun base digits => Literal.foldl_push_eq_foldl_pushWord base digits _,
    fun _ _ => Literal.ofToken?_eq_some_iff, ?_, ?_, ?_⟩
  · intro line name first second dest value hline hspelled
    exact encodeLine_load hline hspelled
  · intro line name first condition value hline hspelled
    exact encodeLine_jump hline hspelled
  · intro left right tokens others intent hleft hright htokens hothers
    exact ⟨_, word_of_spelled hleft htokens, word_of_spelled hright hothers⟩

/-- The number is `2 ^ 32 + 2`, and the word has the `2`. -/
theorem numbers_of_any_size_hexadecimal :
    Token.Reads "mov r1, #0X100000002" ["mov", "r1", "#0X100000002"] ∧
      Intent.Spelled ["mov", "r1", "#0X100000002"] (.load 1 4294967298) ∧
      ∃ encoding source, encodeLine "mov r1, #0X100000002" = .ok (some encoding) ∧
        Instruction.decode encoding.word = .operation .mov 1 source ∧
        Instruction.immediate? source = some 2 ∧
        encoding.warnings = [.immediateTruncated "0X100000002" 2] := by
  have hline : Token.Reads "mov r1, #0X100000002" ["mov", "r1", "#0X100000002"] :=
    Token.reads_iff.mpr rfl
  have hspelled : Intent.Spelled ["mov", "r1", "#0X100000002"] (.load 1 4294967298) :=
    .load (by decide) ⟨'r', Or.inl rfl, rfl⟩ rfl (.hexadecimal (Or.inr rfl) rfl ⟨_, rfl, rfl⟩)
  exact ⟨hline, hspelled, numbers_of_any_size.2.2.1 _ _ _ _ _ _ hline hspelled⟩

end EightBit
