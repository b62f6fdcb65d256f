import EightBit.Proofs.Assembler.Layout
import EightBit.Proofs.Disassembly.Intent
import EightBit.Proofs.Source.Grammar
import EightBit.Proofs.Text.Lines

/-!
# Reading the text of an instruction

The text of an instruction is two or three tokens with spaces and a comma between them, and those
tokens ask for what the instruction does. So the assembler reads the text without a warning.
-/

namespace EightBit

namespace Token

/-- A token that holds together wherever it is written. -/
def Whole (token : Token) : Prop :=
  token ≠ "" ∧ ∀ c ∈ token.toList, isSeparator c = false ∧ c ≠ ';' ∧ c ≠ '/'

instance (token : Token) : Decidable (Whole token) :=
  @instDecidableAnd _ _ inferInstance (List.decidableBAll _ token.toList)

theorem Whole.append {left right : Token} (hleft : Whole left) (hright : Whole right) :
    Whole (left ++ right) := by
  refine ⟨?_, ?_⟩
  · rw [ne_eq, String.append_eq_empty_iff]
    exact fun hboth => hleft.1 hboth.1
  · intro c hc
    rw [String.toList_append, List.mem_append] at hc
    exact hc.elim (hleft.2 c) (hright.2 c)

theorem Whole.unbroken {token : Token} (htoken : Whole token) : Unbroken token where
  ne_empty := htoken.1
  no_separator c hc := (htoken.2 c hc).1
  no_semicolon hmem := (htoken.2 ';' hmem).2.1 rfl
  no_slashes hslashes := (htoken.2 '/' (hslashes.subset List.mem_cons_self)).2.2 rfl

/-- Tokens that are written as the text of an instruction is. -/
inductive Prints : List Token → String → Prop
  | two {first second : Token} (hfirst : Whole first) (hsecond : Whole second) :
      Prints [first, second] (first ++ " " ++ second)
  | three {first second third : Token} (hfirst : Whole first) (hsecond : Whole second)
      (hthird : Whole third) :
      Prints [first, second, third] (first ++ " " ++ second ++ ", " ++ third)

theorem Prints.forall_mem {P : Char → Prop} {tokens : List Token} {line : String}
    (hprints : Prints tokens line) (hspace : P ' ') (hcomma : P ',')
    (htokens : ∀ token, Whole token → ∀ c ∈ token.toList, P c) : ∀ c ∈ line.toList, P c := by
  cases hprints with
  | two hfirst hsecond =>
      intro c hc
      simp only [String.toList_append, List.mem_append] at hc
      rcases hc with (hc | hc) | hc
      · exact htokens _ hfirst c hc
      · rwa [List.mem_singleton.mp hc]
      · exact htokens _ hsecond c hc
  | three hfirst hsecond hthird =>
      intro c hc
      simp only [String.toList_append, List.mem_append] at hc
      rcases hc with (((hc | hc) | hc) | hc) | hc
      · exact htokens _ hfirst c hc
      · rwa [List.mem_singleton.mp hc]
      · exact htokens _ hsecond c hc
      · rcases List.mem_cons.mp hc with rfl | hc
        · exact hcomma
        · rwa [List.mem_singleton.mp hc]
      · exact htokens _ hthird c hc

theorem Prints.unbroken {tokens : List Token} {line : String} (hprints : Prints tokens line) :
    ∀ token ∈ tokens, Unbroken token := by
  cases hprints with
  | two hfirst hsecond => simp [hfirst.unbroken, hsecond.unbroken]
  | three hfirst hsecond hthird => simp [hfirst.unbroken, hsecond.unbroken, hthird.unbroken]

theorem Prints.laidOut {tokens : List Token} {line : String} (hprints : Prints tokens line) :
    LaidOut tokens line := by
  refine ⟨[], line.toList, by decide, ?_, rfl⟩
  cases hprints with
  | two =>
      simp only [String.toList_append, List.append_assoc]
      exact .more (by decide) (by decide) (.singleton _)
  | three =>
      simp only [String.toList_append, List.append_assoc]
      exact .more (by decide) (by decide) (.more (by decide) (by decide) (.singleton _))

/-- The tokens come back when the line is read. -/
theorem Prints.ofLine {tokens : List Token} {line : String} (hprints : Prints tokens line) :
    ofLine line = tokens :=
  reads_iff.mp (hprints.laidOut.reads hprints.unbroken)

theorem Prints.solid {tokens : List Token} {line : String} (hprints : Prints tokens line) :
    Text.Solid line.toList := by
  have hchars : ∀ c ∈ line.toList, c ≠ '\n' ∧ c ≠ '\r' := by
    refine hprints.forall_mem (by decide) (by decide) fun token htoken c hc => ?_
    have hplain := (htoken.2 c hc).1
    constructor
    · rintro rfl
      exact absurd hplain (by decide)
    · rintro rfl
      exact absurd hplain (by decide)
  refine ⟨?_, fun hfeed => (hchars _ hfeed).1 rfl, fun hreturn => ?_⟩
  · intro hnil
    cases hprints with
    | two => simp at hnil
    | three => simp at hnil
  · exact (hchars _ (List.mem_of_getLast? hreturn)).2 rfl

theorem plain_of_value? {c : Char} (hvalue : Numeral.value? 10 c ≠ none) :
    isSeparator c = false ∧ c ≠ ';' ∧ c ≠ '/' :=
  Text.forall_ascii (P := fun c => Numeral.value? 10 c ≠ none →
    isSeparator c = false ∧ c ≠ ';' ∧ c ≠ '/') (by decide +kernel)
    (Numeral.lt_of_value?_ne_none hvalue) hvalue

theorem whole_decimal (n : Nat) : Whole (Numeral.decimal n) := by
  have hspells := Numeral.spells_decimal n
  refine ⟨?_, fun c hc => plain_of_value? (Numeral.value?_ne_none_of_mem hspells hc)⟩
  obtain ⟨digits, hdigits, _⟩ := hspells
  intro hempty
  exact (Numeral.digits?_eq_some_iff.mp hdigits).1 (String.toList_eq_nil_iff.mpr hempty)

end Token

theorem Register.names_registerName (register : Register) :
    Register.Names (Instruction.registerName register) register := by
  refine ⟨'R', Or.inr rfl, ?_⟩
  revert register
  decide

theorem Literal.denotes_decimal (n : Nat) : Literal.Denotes (Numeral.decimal n) n :=
  .decimal (Numeral.spells_decimal n)

theorem Literal.denotes_marked_decimal (n : Nat) :
    Literal.Denotes ("#" ++ Numeral.decimal n) n := by
  refine .marked ?_ (Numeral.spells_decimal n)
  rw [String.toList_append]
  rfl

namespace Instruction

open Token (Whole Prints)

theorem whole_registerName (n : Nat) : Whole (registerName n) :=
  Whole.append (by decide) (Token.whole_decimal n)

theorem whole_mnemonic (opcode : Opcode) : Whole opcode.mnemonic := by
  cases opcode <;> decide

theorem whole_condition (condition : Condition) : Whole condition.mnemonic := by
  cases condition <;> decide

theorem names_dest {dest : UInt8} (hdest : dest.toNat < 4) :
    Register.Names (registerName dest.toNat) (Register.ofField dest) := by
  have hnames := Register.names_registerName (Register.ofField dest)
  have hnumber : (Register.ofField dest : Nat) = dest.toNat := Nat.mod_eq_of_lt hdest
  rwa [hnumber] at hnames

theorem alike_self (name : String) : Text.alike name name = true :=
  Text.alike_iff.mpr rfl

theorem prints_registers {name : Token} (hname : Whole name) (dest source : Nat) :
    Prints [name, registerName dest, registerName source]
      (name ++ " " ++ registerName dest ++ ", " ++ registerName source) :=
  .three hname (whole_registerName dest) (whole_registerName source)

theorem text_compute (operator : Operator) (dest source : UInt8) :
    (operation operator.opcode dest source).text =
      operator.opcode.mnemonic ++ " " ++ registerName dest.toNat ++ ", " ++
        registerName (Register.ofField source) := by
  cases operator <;> rfl

theorem text_load {source value : UInt8} (himmediate : immediate? source = some value)
    (dest : UInt8) :
    (operation .mov dest source).text =
      Opcode.mov.mnemonic ++ " " ++ registerName dest.toNat ++ ", " ++
        ("#" ++ Numeral.decimal value.toNat) := by
  simp only [text, himmediate]

theorem text_copy {source : UInt8} (himmediate : immediate? source = none) (dest : UInt8) :
    (operation .mov dest source).text =
      Opcode.mov.mnemonic ++ " " ++ registerName dest.toNat ++ ", " ++
        registerName (Register.ofField source) := by
  simp only [text, himmediate]

/-- The text of an instruction is written with tokens that ask for what it does. -/
theorem exists_prints {instruction : Instruction} (hvalid : instruction.Valid) :
    ∃ tokens, Prints tokens instruction.text ∧ Intent.Spelled tokens instruction.intent := by
  cases instruction using byIntent with
  | jump condition target =>
      exact ⟨_, .two (whole_condition condition) (Token.whole_decimal _),
        .jump (alike_self _) (Literal.denotes_decimal _)⟩
  | compute operator dest source =>
      rw [text_compute, intent_compute]
      refine ⟨_, prints_registers (whole_mnemonic operator.opcode) _ _, ?_⟩
      rw [operator.mnemonic_opcode]
      exact .compute (alike_self _) (names_dest hvalid.1) (Register.names_registerName _)
  | load dest source value himmediate =>
      rw [text_load himmediate, intent_load himmediate]
      refine ⟨_, .three (whole_mnemonic .mov) (whole_registerName _)
        (.append (by decide) (Token.whole_decimal _)), ?_⟩
      refine .load (alike_self _) (names_dest hvalid.1) ?_ (Literal.denotes_marked_decimal _)
      rw [String.toList_append]
      rfl
  | copy dest source himmediate =>
      rw [text_copy himmediate, intent_copy himmediate]
      exact ⟨_, prints_registers (whole_mnemonic .mov) _ _,
        .copy (alike_self _) (names_dest hvalid.1) (Register.names_registerName _)⟩
  | compare dest source =>
      exact ⟨_, prints_registers (whole_mnemonic .cmp) _ _,
        .compare (alike_self _) (names_dest hvalid.1) (Register.names_registerName _)⟩
  | complement dest source =>
      exact ⟨_, .two (whole_mnemonic .not) (whole_registerName _),
        .complement (alike_self _) (names_dest hvalid.1)⟩

/-- The assembler reads the text without a warning, as the instruction for what it asks for. -/
theorem ofLine_text {instruction : Instruction} (hvalid : instruction.Valid) :
    ∃ statement, Statement.ofLine instruction.text = .ok (some statement) ∧
      statement.encode = ⟨instruction.intent.instruction.encode, []⟩ := by
  obtain ⟨tokens, hprints, hspelled⟩ := exists_prints hvalid
  obtain ⟨statement, hline, hmeans⟩ := Statement.means_of_spelled hprints.ofLine hspelled
  have hfits := fits_intent hvalid
  refine ⟨statement, hline, ?_⟩
  rw [Statement.encode, Statement.word_of_means_of_fits hmeans hfits,
    (Statement.warnings_eq_nil_iff hmeans).mpr hfits]

theorem solid_text {instruction : Instruction} (hvalid : instruction.Valid) :
    Text.Solid instruction.text.toList := by
  obtain ⟨tokens, hprints, _⟩ := exists_prints hvalid
  exact hprints.solid

end Instruction

end EightBit
