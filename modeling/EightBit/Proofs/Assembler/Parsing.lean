import EightBit.Assembler.Statement
import EightBit.Proofs.Assembler.Mnemonics
import EightBit.Proofs.Results

/-!
# What is parsed as what

`Statement.Parses` lists the ways to parse the operands of a mnemonic, and `Statement.ofLine` gives
a statement exactly in those ways or for a token that is no mnemonic.
-/

namespace EightBit

namespace Register

/-- The token is the name of the register, with a letter of either case. -/
def Names (token : Token) (register : Register) : Prop :=
  ∃ letter, (letter = 'r' ∨ letter = 'R') ∧ token.toList = [letter, Numeral.digit register]

theorem toLower_eq_r {letter : Char} (hletter : letter.toLower = 'r') :
    letter = 'r' ∨ letter = 'R' := by
  have hascii : letter.toNat < 128 := by
    rw [← Text.toLower_lt_iff, hletter]
    decide
  exact Text.forall_ascii (P := fun c => c.toLower = 'r' → c = 'r' ∨ c = 'R')
    (by decide +kernel) hascii hletter

theorem ofToken?_eq_some_iff {token : Token} {register : Register} :
    ofToken? token = some register ↔ Names token register := by
  constructor
  · intro htoken
    rw [ofToken?] at htoken
    split at htoken
    · rename_i letter number hchars
      split at htoken
      · rename_i hletter
        refine ⟨letter, toLower_eq_r hletter, ?_⟩
        rw [hchars]
        split at htoken <;> cases htoken <;> rfl
      · simp at htoken
    · simp at htoken
  · rintro ⟨letter, hletter, htoken⟩
    rw [ofToken?, htoken]
    clear htoken
    revert register
    rcases hletter with rfl | rfl
    · decide
    · decide

theorem head?_ne_of_names {token : Token} {register : Register} (hnames : Names token register) :
    token.toList.head? ≠ some '#' := by
  obtain ⟨letter, hletter, htoken⟩ := hnames
  rw [htoken, List.head?_cons]
  rcases hletter with rfl | rfl
  · decide
  · decide

end Register

namespace Statement

/-- The statement that a mnemonic and its operands are parsed as. -/
inductive Parses : Mnemonic → List Token → Statement → Prop
  | nop : Parses .nop [] .nop
  | moveNumber {first second : Token} {dest : Register} {value : Literal}
      (hdest : Register.ofToken? first = some dest) (hmark : second.toList.head? = some '#')
      (hvalue : Literal.ofToken? second = some value) :
      Parses .mov [first, second] (.moveNumber dest value)
  | moveRegister {first second : Token} {dest source : Register}
      (hdest : Register.ofToken? first = some dest) (hmark : second.toList.head? ≠ some '#')
      (hsource : Register.ofToken? second = some source) :
      Parses .mov [first, second] (.moveRegister dest source)
  | complement {first : Token} {dest : Register} (hdest : Register.ofToken? first = some dest) :
      Parses .not [first] (.complement dest)
  | compare {first second : Token} {dest source : Register}
      (hdest : Register.ofToken? first = some dest)
      (hsource : Register.ofToken? second = some source) :
      Parses .cmp [first, second] (.binary .cmp dest source)
  | binary {opcode : Opcode} {first second : Token} {dest source : Register}
      (hdest : Register.ofToken? first = some dest)
      (hsource : Register.ofToken? second = some source) :
      Parses (.binary opcode) [first, second] (.binary opcode dest source)
  | threeOperands {opcode : Opcode} {first second third : Token} :
      Parses (.binary opcode) [first, second, third] (.threeOperands opcode)
  | jump {condition : Condition} {first : Token} {target : Literal}
      (htarget : Literal.ofToken? first = some target) :
      Parses (.jump condition) [first] (.jump condition target)

theorem register_eq_ok_iff {operand : Token} {register : Register} :
    Statement.register operand = .ok register ↔ Register.ofToken? operand = some register := by
  rw [Statement.register]
  cases Register.ofToken? operand <;> simp

theorem number_eq_ok_iff {operand : Token} {literal : Literal} :
    number operand = .ok literal ↔ Literal.ofToken? operand = some literal := by
  rw [number]
  cases Literal.ofToken? operand <;> simp

theorem parses_of_ofOperands {name : String} {mnemonic : Mnemonic} {operands : List Token}
    {statement : Statement} (hok : ofOperands name mnemonic operands = .ok statement) :
    Parses mnemonic operands statement := by
  unfold ofOperands at hok
  split at hok
  · cases hok
    exact .nop
  · obtain ⟨dest, hdest, hok⟩ := bind_eq_ok_iff.mp hok
    rw [register_eq_ok_iff] at hdest
    split at hok
    · rename_i hmark
      obtain ⟨value, hvalue, hok⟩ := bind_eq_ok_iff.mp hok
      cases hok
      exact .moveNumber hdest hmark (number_eq_ok_iff.mp hvalue)
    · rename_i hmark
      obtain ⟨source, hsource, hok⟩ := bind_eq_ok_iff.mp hok
      cases hok
      exact .moveRegister hdest hmark (register_eq_ok_iff.mp hsource)
  · obtain ⟨dest, hdest, hok⟩ := bind_eq_ok_iff.mp hok
    cases hok
    exact .complement (register_eq_ok_iff.mp hdest)
  · obtain ⟨dest, hdest, hok⟩ := bind_eq_ok_iff.mp hok
    obtain ⟨source, hsource, hok⟩ := bind_eq_ok_iff.mp hok
    cases hok
    exact .compare (register_eq_ok_iff.mp hdest) (register_eq_ok_iff.mp hsource)
  · obtain ⟨dest, hdest, hok⟩ := bind_eq_ok_iff.mp hok
    obtain ⟨source, hsource, hok⟩ := bind_eq_ok_iff.mp hok
    cases hok
    exact .binary (register_eq_ok_iff.mp hdest) (register_eq_ok_iff.mp hsource)
  · cases hok
    exact .threeOperands
  · obtain ⟨target, htarget, hok⟩ := bind_eq_ok_iff.mp hok
    cases hok
    exact .jump (number_eq_ok_iff.mp htarget)
  · cases hok

theorem ofOperands_of_parses {mnemonic : Mnemonic} {operands : List Token}
    {statement : Statement} (hparses : Parses mnemonic operands statement) (name : String) :
    ofOperands name mnemonic operands = .ok statement := by
  cases hparses with
  | nop => rfl
  | moveNumber hdest hmark hvalue =>
      rw [← register_eq_ok_iff] at hdest
      rw [← number_eq_ok_iff] at hvalue
      simp only [ofOperands, hdest, hmark, hvalue]
      rfl
  | moveRegister hdest hmark hsource =>
      rw [← register_eq_ok_iff] at hdest hsource
      simp only [ofOperands, hdest, hsource]
      exact if_neg hmark
  | complement hdest =>
      rw [← register_eq_ok_iff] at hdest
      simp only [ofOperands, hdest]
      rfl
  | compare hdest hsource =>
      rw [← register_eq_ok_iff] at hdest hsource
      simp only [ofOperands, hdest, hsource]
      rfl
  | binary hdest hsource =>
      rw [← register_eq_ok_iff] at hdest hsource
      simp only [ofOperands, hdest, hsource]
      rfl
  | threeOperands => rfl
  | jump htarget =>
      rw [← number_eq_ok_iff] at htarget
      simp only [ofOperands, htarget]
      rfl

theorem ofOperands_eq_ok_iff {name : String} {mnemonic : Mnemonic} {operands : List Token}
    {statement : Statement} :
    ofOperands name mnemonic operands = .ok statement ↔ Parses mnemonic operands statement :=
  ⟨parses_of_ofOperands, fun hparses => ofOperands_of_parses hparses name⟩

/-- A line is no statement when it has no tokens. -/
theorem ofLine_eq_none_iff {line : String} :
    ofLine line = .ok none ↔ Token.ofLine line = [] := by
  rw [ofLine]
  split
  · rename_i htokens
    simp [htokens]
  · rename_i first operands htokens
    rw [htokens]
    dsimp only
    split
    · rename_i mnemonic _
      cases ofOperands (Text.upper first) mnemonic operands <;> simp [Except.map]
    · simp

/-- A statement is a mnemonic with operands that it takes, or begins with a token that is no
mnemonic. -/
theorem ofLine_eq_some_iff {line : String} {statement : Statement} :
    ofLine line = .ok (some statement) ↔ ∃ first operands, Token.ofLine line = first :: operands ∧
      ((∃ mnemonic : Mnemonic, mnemonic.Proper ∧ Text.alike mnemonic.name first = true ∧
          Parses mnemonic operands statement) ∨
        Mnemonic.ofName? (Text.upper first) = none ∧ statement = .unknown (Text.upper first)) := by
  constructor
  · intro hline
    rw [ofLine] at hline
    split at hline
    · simp at hline
    · rename_i first operands htokens
      refine ⟨first, operands, htokens, ?_⟩
      dsimp only at hline
      split at hline
      · rename_i mnemonic hmnemonic
        obtain ⟨hproper, halike⟩ := Mnemonic.ofName?_upper_iff.mp hmnemonic
        cases hoperands : ofOperands (Text.upper first) mnemonic operands with
        | error e => simp [hoperands, Except.map] at hline
        | ok found =>
            rw [hoperands] at hline
            cases hline
            exact Or.inl ⟨mnemonic, hproper, halike, ofOperands_eq_ok_iff.mp hoperands⟩
      · rename_i hmnemonic
        cases hline
        exact Or.inr ⟨hmnemonic, rfl⟩
  · rintro ⟨first, operands, htokens, ⟨mnemonic, hproper, halike, hparses⟩ | ⟨hnone, rfl⟩⟩
    · have hmnemonic := Mnemonic.ofName?_upper_iff.mpr ⟨hproper, halike⟩
      simp only [ofLine, htokens, hmnemonic, ofOperands_of_parses hparses]
      rfl
    · simp only [ofLine, htokens, hnone]

end Statement

end EightBit
