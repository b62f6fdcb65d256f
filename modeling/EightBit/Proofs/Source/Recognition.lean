import EightBit.Proofs.Assembler.Parsing
import EightBit.Proofs.Assembler.Tokens

/-!
# Which tokens are mnemonics

A token is a mnemonic when it is the name of one in letters of either case, and letters outside
ASCII count as written, whatever they become in upper case. There are several ways to recognise a
name: a comparison with the name itself, a search among the jumps and a search among the opcodes.
On a token in upper case they all agree.
-/

namespace EightBit

/-! ## Searching -/

namespace Text

section Search

variable {α : Type} {all : List α} {mnemonic : α → String} {name : String} {found : α}
  (hself : ∀ found,
    all.find? (fun other => alike (mnemonic other) (mnemonic found)) = some found)

include hself

/-- When a search for each mnemonic finds the one that has it, all that is found has a mnemonic like
the name, and the other way round. -/
theorem find?_alike_eq_some_iff :
    all.find? (fun other => alike (mnemonic other) name) = some found ↔
      alike (mnemonic found) name = true := by
  constructor
  · intro hfound
    have halike := List.find?_some hfound
    exact halike
  · intro halike
    simpa only [alike_eq_of_alike halike] using hself found

/-- Searching for a token in upper case, or for the token as it is written, finds what has the
upper-case form as its mnemonic. -/
theorem find?_alike_token_iff (hname : IsName (mnemonic found)) (token : Token) :
    (all.find? (fun other => alike (mnemonic other) (upper token)) = some found ↔
        upper token = mnemonic found) ∧
      (all.find? (fun other => alike (mnemonic other) token) = some found ↔
        upper token = mnemonic found) := by
  rw [find?_alike_eq_some_iff hself, find?_alike_eq_some_iff hself, alike_upper_iff hname,
    upper_eq_iff hname]
  exact ⟨Iff.rfl, Iff.rfl⟩

end Search

end Text

theorem Opcode.ofMnemonic?_mnemonic (opcode : Opcode) :
    ofMnemonic? opcode.mnemonic = some opcode := by
  cases opcode <;> decide

theorem Condition.ofMnemonic?_mnemonic (condition : Condition) :
    ofMnemonic? condition.mnemonic = some condition := by
  cases condition <;> decide

theorem Opcode.ofMnemonic?_token_iff (token : Token) (opcode : Opcode) :
    (ofMnemonic? (Text.upper token) = some opcode ↔ Text.upper token = opcode.mnemonic) ∧
      (ofMnemonic? token = some opcode ↔ Text.upper token = opcode.mnemonic) :=
  Text.find?_alike_token_iff ofMnemonic?_mnemonic (Mnemonic.binary opcode).isName_name token

theorem Condition.ofMnemonic?_token_iff (token : Token) (condition : Condition) :
    (ofMnemonic? (Text.upper token) = some condition ↔
        Text.upper token = condition.mnemonic) ∧
      (ofMnemonic? token = some condition ↔ Text.upper token = condition.mnemonic) :=
  Text.find?_alike_token_iff ofMnemonic?_mnemonic (Mnemonic.jump condition).isName_name token

/-- No text is the mnemonic of a jump and of an opcode, in whatever case. -/
theorem ofMnemonic?_eq_none_or (name : String) :
    Condition.ofMnemonic? name = none ∨ Opcode.ofMnemonic? name = none := by
  cases hcondition : Condition.ofMnemonic? name with
  | none => exact Or.inl rfl
  | some condition =>
      right
      apply Option.eq_none_iff_forall_ne_some.mpr
      intro opcode hopcode
      rw [Condition.ofMnemonic?,
        Text.find?_alike_eq_some_iff Condition.ofMnemonic?_mnemonic] at hcondition
      rw [Opcode.ofMnemonic?, Text.find?_alike_eq_some_iff Opcode.ofMnemonic?_mnemonic,
        ← Text.alike_eq_of_alike hcondition] at hopcode
      have hdiffer : Text.alike opcode.mnemonic condition.mnemonic = false := by
        cases opcode <;> cases condition <;> decide
      simp [hdiffer] at hopcode

namespace Mnemonic

/-! ## Comparing -/

/-- The mnemonic of a name that is compared with those of the mnemonics that have operands of their
own kind, and else looked for among the jumps and then among the binary operations. -/
def select? (name : String) : Option Mnemonic :=
  if name = "NOP" then some .nop
  else if name = "MOV" then some .mov
  else if name = "NOT" then some .not
  else if name = "CMP" then some .cmp
  else
    match Condition.ofMnemonic? name with
    | some condition => some (.jump condition)
    | none => ((Opcode.ofMnemonic? name).filter (·.isBinary)).map .binary

/-- An opcode with a name of its own kind has been compared with already. -/
theorem map_ofOpcode_eq {opcode? : Option Opcode}
    (hkind : ∀ opcode, opcode? = some opcode → opcode.isBinary = true) :
    opcode?.map ofOpcode = (opcode?.filter (·.isBinary)).map .binary := by
  cases opcode? with
  | none => rfl
  | some opcode =>
      have hbinary := hkind opcode rfl
      rw [Option.filter_some, if_pos hbinary]
      cases opcode with
      | mov => cases hbinary
      | not => cases hbinary
      | cmp => cases hbinary
      | _ => rfl

theorem select?_upper (token : Token) :
    select? (Text.upper token) = ofName? (Text.upper token) := by
  unfold select? ofName?
  by_cases hmov : Text.upper token = "MOV"
  · rw [hmov]
    decide
  by_cases hnot : Text.upper token = "NOT"
  · rw [hnot]
    decide
  by_cases hcmp : Text.upper token = "CMP"
  · rw [hcmp]
    decide
  rw [if_neg hmov, if_neg hnot, if_neg hcmp]
  have hkind : ∀ opcode, Opcode.ofMnemonic? (Text.upper token) = some opcode →
      opcode.isBinary = true := by
    intro opcode hfound
    have hname := (Opcode.ofMnemonic?_token_iff token opcode).1.mp hfound
    cases opcode with
    | mov => exact absurd hname hmov
    | not => exact absurd hname hnot
    | cmp => exact absurd hname hcmp
    | _ => rfl
  cases Condition.ofMnemonic? (Text.upper token) with
  | some condition => rfl
  | none => exact if_congr Iff.rfl rfl (map_ofOpcode_eq hkind).symm

end Mnemonic

/-! ## Lines -/

theorem Statement.eq_unknown_of_mem_warnings {statement : Statement} {name : String}
    (hmem : .unknownInstruction name ∈ statement.warnings) : statement = .unknown name := by
  revert hmem
  fun_cases warnings statement <;> simp
  exact fun h => h.symm

section Lines

variable {line : String} {first : Token} {operands : List Token}

theorem Statement.ofLine_of_alike {mnemonic : Mnemonic}
    (hline : Token.Reads line (first :: operands)) (hproper : mnemonic.Proper)
    (halike : Text.alike mnemonic.name first = true) :
    ofLine line = (ofOperands mnemonic.name mnemonic operands).map some := by
  have hupper := (Text.upper_eq_iff mnemonic.isName_name).mpr halike
  have hfound := Mnemonic.ofName?_eq_some_iff.mpr ⟨hproper, hupper⟩
  simp only [ofLine, Token.reads_iff.mp hline, hfound]
  rw [hupper]

theorem Statement.ofLine_of_not_alike (hline : Token.Reads line (first :: operands))
    (hnone : ∀ mnemonic : Mnemonic, mnemonic.Proper → ¬Text.alike mnemonic.name first = true) :
    ofLine line = .ok (some (.unknown (Text.upper first))) := by
  have hfound : Mnemonic.ofName? (Text.upper first) = none := by
    apply Option.eq_none_iff_forall_ne_some.mpr
    intro mnemonic hfound
    obtain ⟨hproper, halike⟩ := Mnemonic.ofName?_upper_iff.mp hfound
    exact hnone mnemonic hproper halike
  simp only [ofLine, Token.reads_iff.mp hline, hfound]

/-- Only a token that is no mnemonic is warned about as one that is unknown. -/
theorem encodeLine_unknown_iff (hline : Token.Reads line (first :: operands)) :
    encodeLine line = .ok (some ⟨nop, [.unknownInstruction (Text.upper first)]⟩) ↔
      ∀ mnemonic : Mnemonic, mnemonic.Proper → ¬Text.alike mnemonic.name first = true := by
  constructor
  · intro hunknown mnemonic hproper halike
    rw [encodeLine, Statement.ofLine_of_alike hline hproper halike] at hunknown
    cases hstatement : Statement.ofOperands mnemonic.name mnemonic operands with
    | error error => simp [hstatement, Except.map] at hunknown
    | ok statement =>
        simp only [hstatement, Except.map, Option.map_some, Statement.encode, Except.ok.injEq,
          Option.some.injEq, Encoding.mk.injEq] at hunknown
        have hmem : .unknownInstruction (Text.upper first) ∈ statement.warnings := by
          simp [hunknown.2]
        obtain rfl := Statement.eq_unknown_of_mem_warnings hmem
        cases Statement.ofOperands_eq_ok_iff.mp hstatement
  · intro hnone
    rw [encodeLine, Statement.ofLine_of_not_alike hline hnone]
    rfl

theorem encodeLine_of_not_ascii (hline : Token.Reads line (first :: operands))
    (hforeign : ∃ c ∈ first.toList, 128 ≤ c.toNat) :
    encodeLine line = .ok (some ⟨nop, [.unknownInstruction (Text.upper first)]⟩) := by
  obtain ⟨c, hc, hle⟩ := hforeign
  apply (encodeLine_unknown_iff hline).mpr
  intro mnemonic _ halike
  have hascii := Text.ascii_of_alike mnemonic.isName_name halike c hc
  omega

end Lines

/-- The mnemonics that a line may begin with are their names up to the case of letters of ASCII. A
line that begins with anything else is a statement with an unknown mnemonic, which is warned about
in upper case, and that is so whenever the token has a character outside ASCII. On tokens in upper
case a comparison with the names and the two searches agree, and no text is found by both
searches. -/
theorem mnemonics_up_to_ascii_case :
    (∀ token mnemonic, Mnemonic.select? (Text.upper token) = some mnemonic ↔
        mnemonic.Proper ∧ Text.alike mnemonic.name token = true) ∧
      (∀ line first operands, Token.Reads line (first :: operands) →
        (∀ mnemonic : Mnemonic, mnemonic.Proper → Text.alike mnemonic.name first = true →
          Statement.ofLine line =
            (Statement.ofOperands mnemonic.name mnemonic operands).map some) ∧
        ((∀ mnemonic : Mnemonic, mnemonic.Proper → ¬Text.alike mnemonic.name first = true) →
          Statement.ofLine line = .ok (some (.unknown (Text.upper first)))) ∧
        (encodeLine line = .ok (some ⟨nop, [.unknownInstruction (Text.upper first)]⟩) ↔
          ∀ mnemonic : Mnemonic, mnemonic.Proper → ¬Text.alike mnemonic.name first = true) ∧
        ((∃ c ∈ first.toList, 128 ≤ c.toNat) →
          encodeLine line = .ok (some ⟨nop, [.unknownInstruction (Text.upper first)]⟩))) ∧
      (∀ token : Token, Mnemonic.select? (Text.upper token) = Mnemonic.ofName? (Text.upper token)) ∧
      (∀ (token : Token) (opcode : Opcode),
        (Opcode.ofMnemonic? (Text.upper token) = some opcode ↔
          Text.upper token = opcode.mnemonic) ∧
        (Opcode.ofMnemonic? token = some opcode ↔ Text.upper token = opcode.mnemonic)) ∧
      (∀ (token : Token) (condition : Condition),
        (Condition.ofMnemonic? (Text.upper token) = some condition ↔
          Text.upper token = condition.mnemonic) ∧
        (Condition.ofMnemonic? token = some condition ↔
          Text.upper token = condition.mnemonic)) ∧
      ∀ name, Condition.ofMnemonic? name = none ∨ Opcode.ofMnemonic? name = none := by
  refine ⟨?_, ?_, Mnemonic.select?_upper, Opcode.ofMnemonic?_token_iff,
    Condition.ofMnemonic?_token_iff, ofMnemonic?_eq_none_or⟩
  · intro token mnemonic
    rw [Mnemonic.select?_upper]
    exact Mnemonic.ofName?_upper_iff
  · intro line first operands hline
    exact ⟨fun _ => Statement.ofLine_of_alike hline, Statement.ofLine_of_not_alike hline,
      encodeLine_unknown_iff hline, encodeLine_of_not_ascii hline⟩

/-- The long `ſ` is no `S`, although it becomes one in upper case. -/
theorem mnemonics_up_to_ascii_case_long_s :
    Token.Reads "cMp r1, r2" ["cMp", "r1", "r2"] ∧
      Statement.ofLine "cMp r1, r2" =
        (Statement.ofOperands "CMP" .cmp ["r1", "r2"]).map some ∧
      Token.Reads "ſub r1" ["ſub", "r1"] ∧ (∃ c ∈ "ſub".toList, 128 ≤ c.toNat) ∧
      Text.upper "ſub" = "SUB" ∧
      encodeLine "ſub r1" = .ok (some ⟨nop, [.unknownInstruction (Text.upper "ſub")]⟩) := by
  have hcmp : Token.Reads "cMp r1, r2" ["cMp", "r1", "r2"] := Token.reads_iff.mpr rfl
  have hsub : Token.Reads "ſub r1" ["ſub", "r1"] := Token.reads_iff.mpr rfl
  have hforeign : ∃ c ∈ "ſub".toList, 128 ≤ c.toNat := ⟨'ſ', by decide, by decide⟩
  exact ⟨hcmp, (mnemonics_up_to_ascii_case.2.1 _ _ _ hcmp).1 .cmp trivial (by decide), hsub,
    hforeign, by decide, (mnemonics_up_to_ascii_case.2.1 _ _ _ hsub).2.2.2 hforeign⟩

end EightBit
