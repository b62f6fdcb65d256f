import EightBit.Proofs.Source.Compilation

/-!
# Statements for what a program asks for

Tokens that ask for something are parsed as a statement that means it, and a statement without
warnings means one thing, which its word can hold.
-/

namespace EightBit

namespace Statement

/-- The statement is one for what is asked for. -/
inductive Means : Statement → Intent → Prop
  | nop : Means .nop .nop
  | load {dest : Register} {literal : Literal} {value : Nat} (hvalue : literal.Holds value) :
      Means (.moveNumber dest literal) (.load dest value)
  | copy {dest source : Register} : Means (.moveRegister dest source) (.copy dest source)
  | compute {operator : Operator} {dest source : Register} :
      Means (.binary operator.opcode dest source) (.compute operator dest source)
  | complement {dest : Register} : Means (.complement dest) (.complement dest)
  | compare {dest source : Register} : Means (.binary .cmp dest source) (.compare dest source)
  | jump {condition : Condition} {literal : Literal} {target : Nat}
      (htarget : literal.Holds target) : Means (.jump condition literal) (.jump condition target)

theorem ofLine_of_parses {line : String} {first : Token} {operands : List Token}
    {mnemonic : Mnemonic} {statement : Statement}
    (htokens : Token.ofLine line = first :: operands)
    (hparses : Parses mnemonic operands statement) (hproper : mnemonic.Proper)
    (hname : Text.alike mnemonic.name first = true) : ofLine line = .ok (some statement) :=
  ofLine_eq_some_iff.mpr ⟨first, operands, htokens, Or.inl ⟨mnemonic, hproper, hname, hparses⟩⟩

/-- Tokens that ask for something are parsed as a statement for it. -/
theorem means_of_spelled {line : String} {tokens : List Token} {intent : Intent}
    (htokens : Token.ofLine line = tokens) (hspelled : Intent.Spelled tokens intent) :
    ∃ statement, ofLine line = .ok (some statement) ∧ statement.Means intent := by
  cases hspelled with
  | nop hname =>
      exact ⟨_, ofLine_of_parses htokens .nop trivial hname, .nop⟩
  | load hname hdest hmark hvalue =>
      rw [← Register.ofToken?_eq_some_iff] at hdest
      obtain ⟨literal, hliteral, hholds⟩ := Literal.ofToken?_of_denotes hvalue
      have hparses := Parses.moveNumber hdest hmark hliteral
      exact ⟨_, ofLine_of_parses htokens hparses trivial hname, .load hholds⟩
  | copy hname hdest hsource =>
      have hmark := Register.head?_ne_of_names hsource
      rw [← Register.ofToken?_eq_some_iff] at hdest hsource
      have hparses := Parses.moveRegister hdest hmark hsource
      exact ⟨_, ofLine_of_parses htokens hparses trivial hname, .copy⟩
  | @compute _ first second operator dest source hname hdest hsource =>
      rw [← Register.ofToken?_eq_some_iff] at hdest hsource
      rw [← operator.mnemonic_opcode] at hname
      have hproper := Operator.isBinary_iff.mpr ⟨operator, rfl⟩
      have hparses : Parses (.binary operator.opcode) [first, second]
          (.binary operator.opcode dest source) := .binary hdest hsource
      exact ⟨_, ofLine_of_parses htokens hparses hproper hname, .compute⟩
  | complement hname hdest =>
      rw [← Register.ofToken?_eq_some_iff] at hdest
      exact ⟨_, ofLine_of_parses htokens (.complement hdest) trivial hname, .complement⟩
  | compare hname hdest hsource =>
      rw [← Register.ofToken?_eq_some_iff] at hdest hsource
      exact ⟨_, ofLine_of_parses htokens (.compare hdest hsource) trivial hname, .compare⟩
  | @jump _ first condition _ hname htarget =>
      obtain ⟨literal, hliteral, hholds⟩ := Literal.ofToken?_of_denotes htarget
      have hparses : Parses (.jump condition) [first] (.jump condition literal) :=
        .jump hliteral
      exact ⟨_, ofLine_of_parses htokens hparses trivial hname, .jump hholds⟩

/-- The tokens of a statement without warnings ask for something. -/
theorem spelled_of_ofLine {line : String} {statement : Statement}
    (hline : ofLine line = .ok (some statement)) (hwarnings : statement.warnings = []) :
    ∃ intent, Intent.Spelled (Token.ofLine line) intent := by
  obtain ⟨first, operands, htokens, ⟨mnemonic, hproper, hname, hparses⟩ | ⟨_, rfl⟩⟩ :=
    ofLine_eq_some_iff.mp hline
  · rw [htokens]
    cases hparses with
    | nop => exact ⟨_, .nop hname⟩
    | moveNumber hdest hmark hvalue =>
        obtain ⟨value, hdenotes, _⟩ := Literal.denotes_of_ofToken? hvalue
        exact ⟨_, .load hname (Register.ofToken?_eq_some_iff.mp hdest) hmark hdenotes⟩
    | moveRegister hdest _ hsource =>
        rw [Register.ofToken?_eq_some_iff] at hdest hsource
        exact ⟨_, .copy hname hdest hsource⟩
    | complement hdest =>
        exact ⟨_, .complement hname (Register.ofToken?_eq_some_iff.mp hdest)⟩
    | compare hdest hsource =>
        rw [Register.ofToken?_eq_some_iff] at hdest hsource
        exact ⟨_, .compare hname hdest hsource⟩
    | binary hdest hsource =>
        rw [Register.ofToken?_eq_some_iff] at hdest hsource
        obtain ⟨operator, rfl⟩ := Operator.isBinary_iff.mp hproper
        change Text.alike operator.opcode.mnemonic first = true at hname
        rw [operator.mnemonic_opcode] at hname
        exact ⟨_, .compute hname hdest hsource⟩
    | threeOperands => exact absurd hwarnings (List.cons_ne_nil _ _)
    | jump htarget =>
        obtain ⟨target, hdenotes, _⟩ := Literal.denotes_of_ofToken? htarget
        exact ⟨_, .jump hname hdenotes⟩
  · exact absurd hwarnings (List.cons_ne_nil _ _)

theorem exceeds_immediateMask_iff {literal : Literal} {value : Nat}
    (hvalue : literal.Holds value) : literal.exceeds immediateMask = true ↔ 4 ≤ value :=
  Literal.exceeds_iff 2 hvalue rfl (by decide)

theorem exceeds_targetMask_iff {literal : Literal} {target : Nat}
    (htarget : literal.Holds target) : literal.exceeds targetMask = true ↔ 8 ≤ target :=
  Literal.exceeds_iff 3 htarget rfl (by decide)

theorem warnings_binary_eq_nil_iff {opcode : Opcode} {dest source : Register} :
    (binary opcode dest source).warnings = [] ↔ opcode.jump? (.ofNat dest) = none := by
  rw [warnings]
  cases opcode.jump? (.ofNat dest) <;> simp

/-- There is nothing to say about a statement when its word can hold what is asked for. -/
theorem warnings_eq_nil_iff {statement : Statement} {intent : Intent}
    (hmeans : statement.Means intent) : statement.warnings = [] ↔ intent.Fits := by
  cases hmeans with
  | nop => exact iff_of_true rfl trivial
  | @load _ literal value hvalue =>
      rw [warnings, Intent.Fits, ← Nat.not_le, ← exceeds_immediateMask_iff hvalue]
      cases literal.exceeds immediateMask <;> simp
  | copy => exact iff_of_true rfl trivial
  | compute =>
      rw [warnings_binary_eq_nil_iff]
      exact Operator.jump?_opcode_eq_none_iff
  | complement => exact iff_of_true rfl trivial
  | @compare dest _ =>
      rw [warnings_binary_eq_nil_iff, Opcode.jump?_eq_none_iff, Register.ofNat_eq_jumpMark_iff,
        Intent.Fits]
      exact imp_congr_right fun _ => iff_of_false (by decide) not_false
  | @jump _ literal target htarget =>
      rw [warnings, Intent.Fits, ← Nat.not_le, ← exceeds_targetMask_iff htarget]
      cases literal.exceeds targetMask <;> simp

theorem masked_immediateMask {literal : Literal} {value : Nat} (hvalue : literal.Holds value) :
    literal.masked immediateMask = .ofNat (value % 4) :=
  Literal.masked_eq_ofNat_mod 2 hvalue rfl (by decide)

theorem masked_targetMask {literal : Literal} {target : Nat} (htarget : literal.Holds target) :
    literal.masked targetMask = .ofNat (target % 8) :=
  Literal.masked_eq_ofNat_mod 3 htarget rfl (by decide)

/-- The word of a statement is that of the instruction for what it can hold of what is asked for. -/
theorem word_of_means {statement : Statement} {intent : Intent}
    (hmeans : statement.Means intent) : statement.word = intent.held.instruction.encode := by
  cases hmeans with
  | nop => rfl
  | load hvalue => rw [word, masked_immediateMask hvalue, Intent.held, Intent.instruction]
  | copy => rfl
  | compute => rfl
  | complement => rfl
  | compare => rfl
  | jump htarget => rw [word, masked_targetMask htarget, Intent.held, Intent.instruction]

theorem word_of_means_of_fits {statement : Statement} {intent : Intent}
    (hmeans : statement.Means intent) (hfits : intent.Fits) :
    statement.word = intent.instruction.encode := by
  rw [word_of_means hmeans, Intent.held_of_fits hfits]

theorem decode_registerWord {opcode : Opcode} {dest : Register}
    (hjump : opcode.jump? (.ofNat dest) = none) (source : Register) :
    Instruction.decode (registerWord opcode dest source) =
      .operation opcode (.ofNat dest) (.ofNat source) :=
  Instruction.decode_encode (Instruction.valid_registers hjump source)

/-- The word of an operation that has the fields of a jump is decoded to the jump. -/
theorem decode_registerWord_of_jump? {opcode : Opcode} {dest : Register} {condition : Condition}
    (hjump : opcode.jump? (.ofNat dest) = some condition) (source : Register) :
    Instruction.decode (registerWord opcode dest source) = .jump condition (.ofNat source) := by
  rw [registerWord, Instruction.encode_of_jump? hjump]
  exact Instruction.decode_encode (Nat.lt_trans source.toNat_ofNat_lt (by decide))

/-- A statement without warnings is for one thing only. -/
theorem means_unique {statement : Statement} {intent other : Intent}
    (hmeans : statement.Means intent) (hother : statement.Means other)
    (hwarnings : statement.warnings = []) : other = intent := by
  have hfits := (warnings_eq_nil_iff hmeans).mp hwarnings
  cases hmeans with
  | nop => cases hother; rfl
  | load hvalue =>
      cases hother with
      | load hvalueOther => rw [hvalue.eq_of_lt hvalueOther (Nat.lt_trans hfits (by decide))]
  | copy => cases hother; rfl
  | @compute operator =>
      generalize hopcode : operator.opcode = opcode at hother
      cases hother with
      | compute => rw [Operator.opcode_injective hopcode]
      | compare => cases operator <;> cases hopcode
  | complement => cases hother; rfl
  | compare =>
      generalize hopcode : Opcode.cmp = opcode at hother
      cases hother with
      | @compute operator => cases operator <;> cases hopcode
      | compare => rfl
  | jump htarget =>
      cases hother with
      | jump htargetOther => rw [htarget.eq_of_lt htargetOther (Nat.lt_trans hfits (by decide))]

end Statement

end EightBit
