import EightBit.Proofs.Source.Grammar

/-!
# What a word tells of its line

The word of a line is decoded to what is written on the line, with its numbers cut to the bits of
their fields, unless a warning says otherwise. A word that is decoded to a jump comes from the
mnemonic of the jump, or the warning that the operation is one is there.
-/

namespace EightBit

theorem Condition.mnemonic_injective {condition other : Condition}
    (hname : condition.mnemonic = other.mnemonic) : condition = other := by
  revert hname
  cases condition <;> cases other <;> decide

theorem Opcode.mnemonic_ne_condition (opcode : Opcode) (condition : Condition) :
    opcode.mnemonic ≠ condition.mnemonic := by
  cases opcode <;> cases condition <;> decide

/-- The operands of an operation as they are written, the register that they name as its
destination, and what they say for its operand field. -/
inductive Opcode.Operands : Opcode → List Token → Register → UInt8 → Prop
  | complement {first : Token} {dest : Register} (hdest : Register.Names first dest) :
      Operands .not [first] dest 0
  | immediate {first second : Token} {dest : Register} {value : Nat}
      (hdest : Register.Names first dest) (hmark : second.toList.head? = some '#')
      (hvalue : Literal.Denotes second value) :
      Operands .mov [first, second] dest (.ofNat (4 + value % 4))
  | registers {opcode : Opcode} {first second : Token} {dest source : Register}
      (hopcode : opcode ≠ .not) (hdest : Register.Names first dest)
      (hsource : Register.Names second source) :
      Operands opcode [first, second] dest (.ofNat source)

/-- The word is not that of the operation or the jump that is written. -/
def Warning.Replaces : Warning → Prop
  | .threeOperands _ | .unknownInstruction _ | .aliasedAsJump .. => True
  | .immediateTruncated .. | .targetTruncated .. => False

/-- What a word and its warnings tell of the tokens of their line. -/
structure Encoding.Faithful (encoding : Encoding) (first : Token) (operands : List Token) :
    Prop where
  length_warnings : encoding.warnings.length ≤ 1
  /-- A jump is written as one or flagged. -/
  isJump_iff : (Instruction.decode encoding.word).isJump = true ↔
    (∃ condition : Condition, Text.upper first = condition.mnemonic) ∨
      ∃ opcode condition, encoding.warnings = [.aliasedAsJump opcode condition]
  aliased : ∀ opcode condition, encoding.warnings = [.aliasedAsJump opcode condition] →
    opcode ∈ [.or, .xor, .cmp] ∧ Text.upper first = opcode.mnemonic ∧
      ∃ dest source register, operands = [dest, source] ∧ Register.Names dest 3 ∧
        Register.Names source register ∧
        Instruction.decode encoding.word = .jump condition (.ofNat register)
  jump : ∀ condition : Condition, Text.upper first = condition.mnemonic →
    ∃ target value, operands = [target] ∧ Literal.Denotes target value ∧
      Instruction.decode encoding.word = .jump condition (.ofNat (value % 8))
  operation : Text.upper first ≠ "NOP" →
    (∀ condition : Condition, Text.upper first ≠ condition.mnemonic) →
    (∀ warning ∈ encoding.warnings, ¬warning.Replaces) →
    ∃ opcode dest source, Text.upper first = opcode.mnemonic ∧
      Opcode.Operands opcode operands dest source ∧
      Instruction.decode encoding.word = .operation opcode (.ofNat dest) source

namespace Statement

variable {statement : Statement} {first : Token} {operands : List Token}

theorem length_warnings_le (statement : Statement) : statement.warnings.length ≤ 1 := by
  fun_cases warnings statement <;> simp

/-- The statement is no operation with the fields of a jump. -/
def Plain (statement : Statement) : Prop :=
  ∀ opcode dest source, statement = .binary opcode dest source →
    opcode.jump? (.ofNat dest) = none

theorem Plain.warnings_ne (hplain : statement.Plain) (opcode : Opcode) (condition : Condition) :
    statement.warnings ≠ [.aliasedAsJump opcode condition] := by
  cases statement with
  | binary other dest source => simp [warnings, hplain other dest source rfl]
  | moveNumber dest value =>
      rw [warnings]
      split <;> simp
  | jump condition target =>
      rw [warnings]
      split <;> simp
  | _ => simp [warnings]

/-! ## The kinds of words -/

/-- A word that only fills the place of its line is no jump, written or flagged. -/
theorem faithful_of_padding (hword : statement.word = EightBit.nop) (hplain : statement.Plain)
    (hname : ∀ condition : Condition, Text.upper first ≠ condition.mnemonic)
    (hreason : Text.upper first = "NOP" ∨ ∃ warning ∈ statement.warnings, warning.Replaces) :
    statement.encode.Faithful first operands where
  length_warnings := length_warnings_le statement
  isJump_iff := by
    have hnop : (Instruction.decode EightBit.nop).isJump = false := by decide
    rw [encode, hword, hnop]
    apply iff_of_false Bool.false_ne_true
    rintro (⟨condition, hjump⟩ | ⟨opcode, condition, haliased⟩)
    · exact hname condition hjump
    · exact hplain.warnings_ne opcode condition haliased
  aliased opcode condition haliased := absurd haliased (hplain.warnings_ne opcode condition)
  jump condition hjump := absurd hjump (hname condition)
  operation hnop _ hwarnings := by
    rcases hreason with hreason | ⟨warning, hmem, hreplaces⟩
    · exact absurd hreason hnop
    · exact absurd hreplaces (hwarnings warning hmem)

theorem faithful_of_jump {condition : Condition} {target : Token} {value : Nat}
    (hword : Instruction.decode statement.word = .jump condition (.ofNat (value % 8)))
    (hplain : statement.Plain) (hname : Text.upper first = condition.mnemonic)
    (htarget : Literal.Denotes target value) :
    statement.encode.Faithful first [target] where
  length_warnings := length_warnings_le statement
  isJump_iff := by
    rw [encode, hword]
    exact iff_of_true rfl (Or.inl ⟨condition, hname⟩)
  aliased opcode condition haliased := absurd haliased (hplain.warnings_ne opcode condition)
  jump other hother := by
    obtain rfl := Condition.mnemonic_injective (hname.symm.trans hother)
    exact ⟨target, value, rfl, htarget, hword⟩
  operation _ hjump _ := absurd hname (hjump condition)

theorem faithful_of_operation {opcode : Opcode} {dest : Register} {source : UInt8}
    (hword : Instruction.decode statement.word = .operation opcode (.ofNat dest) source)
    (hplain : statement.Plain) (hname : Text.upper first = opcode.mnemonic)
    (hoperands : opcode.Operands operands dest source) :
    statement.encode.Faithful first operands where
  length_warnings := length_warnings_le statement
  isJump_iff := by
    rw [encode, hword]
    apply iff_of_false Bool.false_ne_true
    rintro (⟨condition, hjump⟩ | ⟨other, condition, haliased⟩)
    · exact opcode.mnemonic_ne_condition condition (hname.symm.trans hjump)
    · exact hplain.warnings_ne other condition haliased
  aliased other condition haliased := absurd haliased (hplain.warnings_ne other condition)
  jump condition hjump :=
    absurd (hname.symm.trans hjump) (opcode.mnemonic_ne_condition condition)
  operation _ _ _ := ⟨opcode, dest, source, hname, hoperands, hword⟩

theorem faithful_of_aliased {opcode : Opcode} {condition : Condition} {dest source : Token}
    {register : Register}
    (hword : Instruction.decode statement.word = .jump condition (.ofNat register))
    (hwarnings : statement.warnings = [.aliasedAsJump opcode condition])
    (hborrower : opcode.borrower? = some condition) (hname : Text.upper first = opcode.mnemonic)
    (hdest : Register.Names dest 3) (hsource : Register.Names source register) :
    statement.encode.Faithful first [dest, source] where
  length_warnings := length_warnings_le statement
  isJump_iff := by
    rw [encode, hword]
    exact iff_of_true rfl (Or.inr ⟨opcode, condition, hwarnings⟩)
  aliased other jump haliased := by
    obtain ⟨rfl, rfl⟩ : opcode = other ∧ condition = jump := by
      simpa using hwarnings.symm.trans haliased
    refine ⟨?_, hname, dest, source, register, rfl, hdest, hsource, hword⟩
    cases opcode with
    | or => simp
    | xor => simp
    | cmp => simp
    | _ => cases hborrower
  jump other hother :=
    absurd (hname.symm.trans hother) (opcode.mnemonic_ne_condition other)
  operation _ _ hplain := by
    have hmem : Warning.aliasedAsJump opcode condition ∈ statement.warnings := by simp [hwarnings]
    exact absurd trivial (hplain _ hmem)

/-! ## Statements -/

theorem decode_word {intent : Intent} (hmeans : statement.Means intent)
    (hfits : intent.held.Fits) :
    Instruction.decode statement.word = intent.held.instruction := by
  rw [word_of_means hmeans, Instruction.decode_encode (Intent.instruction_valid hfits)]

theorem faithful_moveNumber {left right : Token} {dest : Register} {literal : Literal}
    (hname : Text.upper first = Opcode.mov.mnemonic) (hdest : Register.Names left dest)
    (hmark : right.toList.head? = some '#') (hvalue : Literal.ofToken? right = some literal) :
    (moveNumber dest literal).encode.Faithful first [left, right] := by
  obtain ⟨value, hdenotes, hholds⟩ := Literal.denotes_of_ofToken? hvalue
  have hlow : value % 4 < 4 := Nat.mod_lt value (by decide)
  have hfield : UInt8.ofNat (4 + value % 4) = .ofNat (value % 4) + Instruction.immediateBase := by
    rw [Nat.add_comm, UInt8.ofNat_add]
    rfl
  have hmeans : (moveNumber dest literal).Means (.load dest value) := .load hholds
  have hword := decode_word hmeans hlow
  rw [Intent.held, Intent.instruction, ← hfield] at hword
  exact faithful_of_operation hword (by simp [Plain]) hname (.immediate hdest hmark hdenotes)

theorem faithful_jump {condition : Condition} {target : Token} {literal : Literal}
    (hname : Text.upper first = condition.mnemonic)
    (htarget : Literal.ofToken? target = some literal) :
    (jump condition literal).encode.Faithful first [target] := by
  obtain ⟨value, hdenotes, hholds⟩ := Literal.denotes_of_ofToken? htarget
  have hlow : value % 8 < 8 := Nat.mod_lt value (by decide)
  exact faithful_of_jump (decode_word (.jump hholds) hlow) (by simp [Plain]) hname hdenotes

theorem faithful_binary {opcode : Opcode} {left right : Token} {dest source : Register}
    (hname : Text.upper first = opcode.mnemonic) (hopcode : opcode ≠ .not)
    (hdest : Register.Names left dest) (hsource : Register.Names right source) :
    (binary opcode dest source).encode.Faithful first [left, right] := by
  cases hjump : opcode.jump? (.ofNat dest) with
  | none =>
      refine faithful_of_operation (decode_registerWord hjump source) ?_ hname
        (.registers hopcode hdest hsource)
      rintro _ _ _ ⟨⟩
      exact hjump
  | some condition =>
      obtain ⟨hmark, hborrows⟩ := Opcode.jump?_eq_some_iff.mp hjump
      obtain rfl : dest = 3 := Fin.ext (Register.ofNat_eq_jumpMark_iff.mp hmark)
      have hborrower := Opcode.borrower?_eq_some_iff.mpr hborrows
      refine faithful_of_aliased (decode_registerWord_of_jump? hjump source) ?_ hborrower hname
        hdest hsource
      simp only [warnings, hjump]

/-- Operands that are parsed give a faithful word. -/
theorem faithful_of_parses {mnemonic : Mnemonic} (hname : mnemonic.Named first)
    (hparses : Parses mnemonic operands statement) :
    statement.encode.Faithful first operands := by
  have hupper := hname.upper
  cases hparses with
  | nop =>
      refine faithful_of_padding rfl (by simp [Plain]) ?_ (Or.inl hupper)
      intro condition
      rw [hupper]
      cases condition <;> decide
  | moveNumber hdest hmark hvalue =>
      rw [Register.ofToken?_eq_some_iff] at hdest
      exact faithful_moveNumber hupper hdest hmark hvalue
  | moveRegister hdest _ hsource =>
      rw [Register.ofToken?_eq_some_iff] at hdest hsource
      change Text.upper first = Opcode.mov.mnemonic at hupper
      exact faithful_of_operation (decode_word .copy trivial) (by simp [Plain]) hupper
        (.registers (by decide) hdest hsource)
  | complement hdest =>
      rw [Register.ofToken?_eq_some_iff] at hdest
      change Text.upper first = Opcode.not.mnemonic at hupper
      exact faithful_of_operation (decode_word .complement trivial) (by simp [Plain]) hupper
        (.complement hdest)
  | compare hdest hsource =>
      rw [Register.ofToken?_eq_some_iff] at hdest hsource
      exact faithful_binary hupper (by decide) hdest hsource
  | binary hdest hsource =>
      rw [Register.ofToken?_eq_some_iff] at hdest hsource
      have hbinary := hname.proper
      refine faithful_binary hupper ?_ hdest hsource
      rintro rfl
      exact Bool.false_ne_true hbinary
  | @threeOperands opcode =>
      refine faithful_of_padding rfl (by simp [Plain]) ?_
        (Or.inr ⟨_, List.mem_singleton_self _, trivial⟩)
      intro condition
      rw [hupper]
      exact opcode.mnemonic_ne_condition condition
  | jump htarget => exact faithful_jump hupper htarget

theorem faithful_unknown (hname : Mnemonic.ofName? (Text.upper first) = none) :
    (unknown (Text.upper first)).encode.Faithful first operands := by
  refine faithful_of_padding rfl (by simp [Plain]) ?_
    (Or.inr ⟨_, List.mem_singleton_self _, trivial⟩)
  intro condition hupper
  have hjump : Mnemonic.Proper (.jump condition) := trivial
  rw [hupper] at hname
  cases hname.symm.trans (Mnemonic.ofName?_name hjump)

end Statement

theorem exists_statement_of_encodeLine {line : String} {encoding : Encoding}
    (hline : encodeLine line = .ok (some encoding)) :
    ∃ statement, Statement.ofLine line = .ok (some statement) ∧ statement.encode = encoding := by
  rw [encodeLine] at hline
  cases hfound : Statement.ofLine line with
  | error error => simp [hfound, Except.map] at hline
  | ok found =>
      cases found with
      | none => simp [hfound, Except.map] at hline
      | some statement =>
          refine ⟨statement, rfl, ?_⟩
          simpa [hfound, Except.map] using hline

/-- The word of a line and its warnings are faithful to the tokens of the line: without a warning
the word is decoded to what is written, and an operation is never decoded to a jump without one. -/
theorem encodeLine_faithful {line : String} {encoding : Encoding}
    (hline : encodeLine line = .ok (some encoding)) :
    ∃ first operands, Token.Reads line (first :: operands) ∧
      encoding.Faithful first operands := by
  obtain ⟨statement, hstatement, rfl⟩ := exists_statement_of_encodeLine hline
  obtain ⟨first, operands, htokens, hkind⟩ := Statement.ofLine_eq_some_iff.mp hstatement
  refine ⟨first, operands, Token.reads_iff.mpr htokens, ?_⟩
  rcases hkind with ⟨mnemonic, hproper, halike, hparses⟩ | ⟨hname, rfl⟩
  · have hupper := (Text.upper_eq_iff mnemonic.isName_name).mpr halike
    exact Statement.faithful_of_parses ⟨hproper, hupper⟩ hparses
  · exact Statement.faithful_unknown hname

/-- A bitwise operation on `R3` that is decoded to a jump. -/
theorem encodeLine_faithful_or :
    encodeLine "or r3, R1 ; not an OR" = .ok (some ⟨0x79, [.aliasedAsJump .or .always]⟩) ∧
      ∃ first operands, Token.Reads "or r3, R1 ; not an OR" (first :: operands) ∧
        (⟨0x79, [.aliasedAsJump .or .always]⟩ : Encoding).Faithful first operands :=
  ⟨rfl, encodeLine_faithful rfl⟩

end EightBit
