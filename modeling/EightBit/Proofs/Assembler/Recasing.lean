import EightBit.Proofs.Assembler.Operands
import EightBit.Proofs.Assembler.Tokens
import EightBit.Proofs.Text.Recasing

/-!
# Tokens in letters of another case

A change of the case of some letters of a line changes the same places of its tokens and nothing
else: comments begin where they did, and separators stay separators. What an operand has to be and
what a number is worth do not depend on the case of their letters.
-/

namespace EightBit

open Text

/-! ## Tokens -/

namespace Token

theorem ignoresCase_isSeparator : IgnoresCase isSeparator :=
  ignoresCase_of_codes (by decide +kernel)

theorem commentAt_iff_marks {chars : List Char} :
    CommentAt chars ↔
      [true] <+: chars.map (· == ';') ∨ [true, true] <+: chars.map (· == '/') := by
  have hmark {mark c : Char} : true = (c == mark) ↔ mark = c := by
    rw [eq_comm, beq_iff_eq, eq_comm]
  unfold CommentAt
  rcases chars with _ | ⟨first, _ | ⟨second, rest⟩⟩
  · simp
  · simp [List.cons_prefix_cons, hmark]
  · simp [List.cons_prefix_cons, hmark]

section Parts

variable {change : Recasing} {part : List (Char × Char)}

theorem commentAt_map_iff (hpart : part <:+: change.pairs) :
    CommentAt (part.map Prod.fst) ↔ CommentAt (part.map Prod.snd) := by
  rw [commentAt_iff_marks, commentAt_iff_marks, Recasing.map_eq hpart (ignoresCase_beq rfl),
    Recasing.map_eq hpart (ignoresCase_beq rfl)]

/-- A comment begins at the same place of both lines. -/
theorem exists_code_eq (hpart : part <:+: change.pairs) :
    ∃ front, front <+: part ∧ code (part.map Prod.fst) = front.map Prod.fst ∧
      code (part.map Prod.snd) = front.map Prod.snd := by
  induction part with
  | nil => exact ⟨[], List.prefix_rfl, rfl, rfl⟩
  | cons pair rest ih =>
      have hboth := commentAt_map_iff hpart
      simp only [List.map_cons] at hboth ⊢
      by_cases hcomment : CommentAt (pair.1 :: rest.map Prod.fst)
      · refine ⟨[], List.nil_prefix, ?_, ?_⟩
        · exact code_eq_nil_of_commentAt hcomment
        · exact code_eq_nil_of_commentAt (hboth.mp hcomment)
      · obtain ⟨front, hfront, hbefore, hafter⟩ :=
          ih ((List.suffix_cons pair rest).isInfix.trans hpart)
        refine ⟨pair :: front, List.cons_prefix_cons.mpr ⟨rfl, hfront⟩, ?_, ?_⟩
        · rw [code_cons_of_not_commentAt hcomment, hbefore, List.map_cons]
        · rw [code_cons_of_not_commentAt (mt hboth.mpr hcomment), hafter, List.map_cons]

theorem isSeparator_eq (hpart : part <:+: change.pairs) {pair : Char × Char}
    (hpair : pair ∈ part) : isSeparator pair.1 = isSeparator pair.2 :=
  ignoresCase_isSeparator.eq_of_same_letter (change.same_letter pair (hpart.subset hpair))

/-- The runs of a line are at the same places after the change. -/
theorem Runs.exists_turned {chars : List Char} {tokens : List Token} (hruns : Runs chars tokens)
    (hpart : part <:+: change.pairs) (hchars : part.map Prod.fst = chars) :
    ∃ others, Runs (part.map Prod.snd) others ∧ List.Forall₂ change.Turns tokens others := by
  induction hruns generalizing part with
  | nil =>
      obtain rfl := List.map_eq_nil_iff.mp hchars
      exact ⟨[], .nil, .nil⟩
  | separator hc _ ih =>
      obtain ⟨pair, rest, rfl, rfl, hrest⟩ := List.map_eq_cons_iff.mp hchars
      obtain ⟨others, hothers, hturns⟩ :=
        ih ((List.suffix_cons pair rest).isInfix.trans hpart) hrest
      rw [isSeparator_eq hpart List.mem_cons_self] at hc
      exact ⟨others, .separator hc hothers, hturns⟩
  | run hne hplain hlongest _ ih =>
      obtain ⟨front, rest, rfl, rfl, rfl⟩ := List.map_eq_append_iff.mp hchars
      have hfront := (List.prefix_append front rest).isInfix.trans hpart
      have hrest := (List.suffix_append front rest).isInfix.trans hpart
      obtain ⟨others, hothers, hturns⟩ := ih hrest rfl
      rw [List.forall_mem_map] at hplain
      -- Separators stay separators, so the run is still the longest one at its place.
      refine ⟨_, ?_, .cons ⟨front, hfront, rfl, rfl⟩ hturns⟩
      rw [List.map_append]
      refine .run ?_ ?_ ?_ hothers
      · simpa using hne
      · rw [List.forall_mem_map]
        intro pair hpair
        rw [← isSeparator_eq hfront hpair]
        exact hplain pair hpair
      · cases rest with
        | nil => simp
        | cons pair rest => simpa [isSeparator_eq hrest List.mem_cons_self] using hlongest

end Parts

/-- The tokens after the change are what the change turns the tokens before it into. -/
theorem turns_ofLine (change : Recasing) :
    List.Forall₂ change.Turns (ofLine change.before) (ofLine change.after) := by
  obtain ⟨front, hfront, hbefore, hafter⟩ := exists_code_eq (List.infix_refl change.pairs)
  rw [ofLine_eq_words, ofLine_eq_words, Recasing.before, Recasing.after, String.toList_ofList,
    String.toList_ofList, hbefore, hafter]
  have hruns : Runs (front.map Prod.fst) (words (front.map Prod.fst)) := runs_iff.mpr rfl
  obtain ⟨others, hothers, hturns⟩ := hruns.exists_turned hfront.isInfix rfl
  rwa [runs_iff.mp hothers]

end Token

/-! ## Numbers -/

namespace Numeral

/-- The digits of the bases in use are those of base 16, as far as they are small enough. -/
theorem value?_eq_filter {base : Nat} (hbase : base ≤ 16) (c : Char) :
    value? base c = (value? 16 c).filter (· < base) := by
  have hsmall (digit : Nat) : (decide (digit < 16) && decide (digit < base)) =
      decide (digit < base) := by
    rw [← Bool.decide_and, decide_eq_decide]
    omega
  simp only [value?, Option.filter_filter, hsmall]

theorem ignoresCase_value? {base : Nat} (hbase : base ≤ 16) : IgnoresCase (value? base) := by
  have hhexadecimal : IgnoresCase (value? 16) := ignoresCase_of_codes (by decide +kernel)
  intro c
  rw [value?_eq_filter hbase, value?_eq_filter hbase, hhexadecimal c]

theorem digits?_foldCase {base : Nat} (hbase : base ≤ 16) (chars : List Char) :
    digits? base (foldCase chars) = digits? base chars := by
  have hvalues : value? base ∘ Char.toLower = value? base :=
    funext (ignoresCase_value? hbase)
  simp only [digits?, foldCase, List.map_eq_nil_iff, List.mapM_map, hvalues]

theorem spells_foldCase_iff {base value : Nat} (hbase : base ≤ 16) {chars : List Char} :
    Spells base (foldCase chars) value ↔ Spells base chars value := by
  rw [Spells, Spells, digits?_foldCase hbase]

end Numeral

namespace Literal

theorem eq_of_toLower_eq_x {x c : Char} (hx : x = 'x' ∨ x = 'X') (hc : c.toLower = x) :
    c = 'x' ∨ c = 'X' := by
  have hf : IgnoresCase (fun c => c == 'x' || c == 'X') :=
    ignoresCase_of_codes (by decide +kernel)
  have hboth := hf c
  rw [hc] at hboth
  rcases hx with rfl | rfl <;> simpa using hboth.symm

/-- A token stands for a number when it does so in lower case. -/
theorem denotes_foldCase_iff {token : Token} {value : Nat} :
    Denotes (String.ofList (foldCase token.toList)) value ↔ Denotes token value := by
  constructor
  · intro hdenotes
    cases hdenotes with
    | decimal hdigits =>
        rw [String.toList_ofList, Numeral.spells_foldCase_iff (by decide)] at hdigits
        exact .decimal hdigits
    | marked htoken hdigits =>
        rw [String.toList_ofList] at htoken
        obtain ⟨mark, digits, htoken, hmark, rfl⟩ := List.map_eq_cons_iff.mp htoken
        obtain rfl := eq_of_toLower_eq rfl hmark
        exact .marked htoken ((Numeral.spells_foldCase_iff (by decide)).mp hdigits)
    | hexadecimal hx htoken hdigits =>
        rw [String.toList_ofList] at htoken
        obtain ⟨mark, rest, htoken, hmark, hrest⟩ := List.map_eq_cons_iff.mp htoken
        obtain ⟨zero, rest, rfl, hzero, hrest⟩ := List.map_eq_cons_iff.mp hrest
        obtain ⟨other, digits, rfl, hother, rfl⟩ := List.map_eq_cons_iff.mp hrest
        obtain rfl := eq_of_toLower_eq rfl hmark
        obtain rfl := eq_of_toLower_eq rfl hzero
        exact .hexadecimal (eq_of_toLower_eq_x hx hother) htoken
          ((Numeral.spells_foldCase_iff (by decide)).mp hdigits)
  · intro hdenotes
    cases hdenotes with
    | decimal hdigits =>
        rw [← Numeral.spells_foldCase_iff (by decide)] at hdigits
        exact .decimal (by rwa [String.toList_ofList])
    | marked htoken hdigits =>
        rw [← Numeral.spells_foldCase_iff (by decide)] at hdigits
        exact .marked (by rw [String.toList_ofList, htoken]; rfl) hdigits
    | hexadecimal hx htoken hdigits =>
        rw [← Numeral.spells_foldCase_iff (by decide)] at hdigits
        refine .hexadecimal (Or.inl rfl) ?_ hdigits
        rw [String.toList_ofList, htoken]
        rcases hx with rfl | rfl <;> rfl

/-- The digits of a number without its mark are turned into those of the other number. -/
theorem turns_unmarked {change : Recasing} {token other : Token}
    (hturns : change.Turns token other) :
    change.Turns (String.ofList (unmarked token.toList))
      (String.ofList (unmarked other.toList)) := by
  obtain ⟨part, hpart, rfl, rfl⟩ := hturns
  rw [String.toList_ofList, String.toList_ofList]
  have hplain {c : Char} {rest : List Char} (hc : c ≠ '#') : unmarked (c :: rest) = c :: rest :=
    unmarked.eq_2 _ fun _ heq => hc (List.cons.inj heq).1
  rcases part with _ | ⟨⟨c, d⟩, rest⟩
  · exact ⟨[], hpart, rfl, rfl⟩
  · have hletter := change.same_letter (c, d) (hpart.subset List.mem_cons_self)
    have hmark : (c == '#') = (d == '#') := (ignoresCase_beq rfl).eq_of_same_letter hletter
    rw [Bool.eq_iff_iff, beq_iff_eq, beq_iff_eq] at hmark
    by_cases hc : c = '#'
    · obtain rfl := hmark.mp hc
      obtain rfl := hc
      exact ⟨rest, (List.suffix_cons _ rest).isInfix.trans hpart, rfl, rfl⟩
    · refine ⟨_, hpart, ?_, ?_⟩
      · exact congrArg String.ofList (hplain hc).symm
      · exact congrArg String.ofList (hplain (mt hmark.mpr hc)).symm

end Literal

/-! ## Mnemonics and operands -/

section Operands

variable {operand other : Token}

theorem Mnemonic.named_iff_of_alike {mnemonic : Mnemonic} (halike : alike operand other = true) :
    mnemonic.Named operand ↔ mnemonic.Named other := by
  have hupper := upper_eq_of_alike halike
  constructor
  · intro hname
    exact ⟨hname.proper, hupper ▸ hname.upper⟩
  · intro hname
    exact ⟨hname.proper, hupper ▸ hname.upper⟩

theorem Literal.denotes_iff_of_alike {value : Nat} (halike : alike operand other = true) :
    Denotes operand value ↔ Denotes other value := by
  rw [← denotes_foldCase_iff, alike_iff.mp halike, denotes_foldCase_iff]

theorem Register.names_iff_foldCase {register : Register} :
    Names operand register ↔ foldCase operand.toList = ['r', Numeral.digit register] := by
  have hdigit : (Numeral.digit register).isAlpha = false ∧
      (Numeral.digit register).toLower = Numeral.digit register := by
    revert register
    decide
  constructor
  · rintro ⟨letter, hletter, hoperand⟩
    rw [hoperand, foldCase, List.map_cons, List.map_singleton, hdigit.2]
    rcases hletter with rfl | rfl <;> rfl
  · intro hfold
    obtain ⟨letter, rest, hoperand, hletter, hrest⟩ := List.map_eq_cons_iff.mp hfold
    obtain ⟨number, rfl, hnumber⟩ := List.map_eq_singleton_iff.mp hrest
    obtain rfl := eq_of_toLower_eq hdigit.1 hnumber
    exact ⟨letter, toLower_eq_r hletter, hoperand⟩

theorem Register.names_iff_of_alike {register : Register} (halike : alike operand other = true) :
    Names operand register ↔ Names other register := by
  rw [names_iff_foldCase, alike_iff.mp halike, names_iff_foldCase]

theorem head?_eq_mark_iff_of_alike (halike : alike operand other = true) :
    operand.toList.head? = some '#' ↔ other.toList.head? = some '#' := by
  have hfold (chars : List Char) : chars.head? = some '#' ↔ (foldCase chars).head? = some '#' := by
    cases chars with
    | nil => exact Iff.rfl
    | cons c rest =>
        simp only [foldCase, List.map_cons, List.head?_cons, Option.some.injEq]
        exact ⟨fun hc => by rw [hc]; rfl, eq_of_toLower_eq rfl⟩
  rw [hfold, alike_iff.mp halike, ← hfold]

/-- What an operand has to be it is in letters of either case. -/
theorem Slot.accepts_iff_of_alike {slot : Slot} (halike : alike operand other = true) :
    slot.Accepts operand ↔ slot.Accepts other := by
  cases slot <;> simp only [Accepts, head?_eq_mark_iff_of_alike halike,
    Literal.denotes_iff_of_alike halike, Register.names_iff_of_alike halike]

end Operands

end EightBit
