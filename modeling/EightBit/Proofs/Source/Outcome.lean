import EightBit.Proofs.Assembler.Operands
import EightBit.Proofs.Source.Grammar
import Mathlib.Data.List.Forall2

/-!
# What becomes of a line

`Outcome` gives for the tokens of a line what the assembler has to make of it: nothing, the word and
the warnings for what the tokens ask for, a `nop` with a warning, or an error. It says so without
parsing anything, and every line has exactly one outcome.
-/

namespace EightBit

namespace Intent

/-- What there is to say about the word for what is asked for. The digits are those of its number as
it is written, with the sign of their base. -/
def warnings (digits : String) : Intent → List Warning
  | .load _ value =>
    if 4 ≤ value then [.immediateTruncated digits (.ofNat (value % 4))] else []
  | .jump _ target => if 8 ≤ target then [.targetTruncated digits (.ofNat (target % 8))] else []
  | .compute .or dest _ => if dest.val = 3 then [.aliasedAsJump .or .always] else []
  | .compute .xor dest _ => if dest.val = 3 then [.aliasedAsJump .xor .zero] else []
  | .compare dest _ => if dest.val = 3 then [.aliasedAsJump .cmp .nonzero] else []
  | .nop | .copy .. | .compute .. | .complement _ => []

def encoding (digits : String) (intent : Intent) : Encoding where
  word := intent.held.instruction.encode
  warnings := intent.warnings digits

end Intent

/-- What the assembler makes of the tokens of a line. -/
inductive Outcome : List Token → Except LineError (Option Encoding) → Prop
  | blank : Outcome [] (.ok none)
  | unknown {first : Token} {operands : List Token}
      (hname : ∀ mnemonic : Mnemonic, ¬mnemonic.Named first) :
      Outcome (first :: operands) (.ok (some ⟨nop, [.unknownInstruction (Text.upper first)]⟩))
  | threeOperands {first : Token} {operands : List Token} {opcode : Opcode}
      (hname : (Mnemonic.binary opcode).Named first) (hcount : operands.length = 3) :
      Outcome (first :: operands) (.ok (some ⟨nop, [.threeOperands opcode]⟩))
  | missing {first : Token} {operands : List Token} {mnemonic : Mnemonic}
      (hname : mnemonic.Named first) (hcount : operands.length < mnemonic.slots.length) :
      Outcome (first :: operands) (.error (.missingOperand (Text.upper first)))
  | surplus {first extra : Token} {before after : List Token} {mnemonic : Mnemonic}
      (hname : mnemonic.Named first) (hcount : before.length = mnemonic.slots.length)
      (hthree : ∀ opcode, mnemonic = .binary opcode → after ≠ []) :
      Outcome (first :: (before ++ extra :: after))
        (.error (.unexpectedOperand (Text.upper first) extra))
  | misfit {first : Token} {operands : List Token} {mnemonic : Mnemonic} {error : LineError}
      (hname : mnemonic.Named first) (hcount : operands.length = mnemonic.slots.length)
      (hmisfit : Slot.FirstMisfit mnemonic.slots operands error) :
      Outcome (first :: operands) (.error error)
  | accepted {tokens : List Token} {last : Token} {intent : Intent}
      (hspelled : Intent.Spelled tokens intent) (hlast : tokens.getLast? = some last) :
      Outcome tokens
        (.ok (some (intent.encoding (String.ofList (Literal.unmarked last.toList)))))

namespace Statement

def literal? : Statement → Option Literal
  | .moveNumber _ value => some value
  | .jump _ target => some target
  | .nop | .moveRegister .. | .binary .. | .threeOperands _ | .complement _ | .unknown _ => none

/-- The number of a statement is the last token of its line. -/
theorem text_of_literal? {line : String} {statement : Statement} {literal : Literal} {last : Token}
    (hline : ofLine line = .ok (some statement)) (hliteral : statement.literal? = some literal)
    (hlast : (Token.ofLine line).getLast? = some last) :
    literal.text = String.ofList (Literal.unmarked last.toList) := by
  obtain ⟨first, operands, htokens, ⟨mnemonic, _, _, hparses⟩ | ⟨_, rfl⟩⟩ :=
    ofLine_eq_some_iff.mp hline
  · rw [htokens] at hlast
    cases hparses with
    | moveNumber _ _ hvalue =>
        cases hlast
        cases hliteral
        exact Literal.text_of_ofToken? hvalue
    | jump htarget =>
        cases hlast
        cases hliteral
        exact Literal.text_of_ofToken? htarget
    | nop => cases hliteral
    | moveRegister => cases hliteral
    | complement => cases hliteral
    | compare => cases hliteral
    | binary => cases hliteral
    | threeOperands => cases hliteral
  · cases hliteral

theorem warnings_binary {opcode : Opcode} {condition : Condition}
    (hborrower : opcode.borrower? = some condition) (dest source : Register) :
    (binary opcode dest source).warnings =
      if dest.val = 3 then [.aliasedAsJump opcode condition] else [] := by
  rw [warnings, Opcode.jump?, hborrower]
  simp only [Register.ofNat_eq_jumpMark_iff]
  by_cases hdest : dest.val = 3
  · rw [if_pos hdest, if_pos hdest]
  · rw [if_neg hdest, if_neg hdest]

/-- What there is to say about a statement is what there is to say about what it is for. -/
theorem warnings_of_means {statement : Statement} {intent : Intent} {digits : String}
    (hmeans : statement.Means intent)
    (hdigits : ∀ literal, statement.literal? = some literal → literal.text = digits) :
    statement.warnings = intent.warnings digits := by
  cases hmeans with
  | nop => rfl
  | @load _ literal _ hvalue =>
      simp only [warnings, Intent.warnings, exceeds_immediateMask_iff hvalue,
        masked_immediateMask hvalue, hdigits literal rfl]
  | copy => rfl
  | @compute operator dest source =>
      cases operator with
      | add => exact warnings_binary_eq_nil_iff.mpr (Opcode.jump?_of_borrower? rfl _)
      | mul => exact warnings_binary_eq_nil_iff.mpr (Opcode.jump?_of_borrower? rfl _)
      | and => exact warnings_binary_eq_nil_iff.mpr (Opcode.jump?_of_borrower? rfl _)
      | or => exact warnings_binary rfl dest source
      | xor => exact warnings_binary rfl dest source
  | complement => rfl
  | @compare dest source => exact warnings_binary rfl dest source
  | @jump _ literal _ htarget =>
      simp only [warnings, Intent.warnings, exceeds_targetMask_iff htarget,
        masked_targetMask htarget, hdigits literal rfl]

end Statement

namespace Outcome

variable {line : String} {first : Token} {operands : List Token} {mnemonic : Mnemonic}

theorem encodeLine_of_named (htokens : Token.ofLine line = first :: operands)
    (hname : mnemonic.Named first) :
    encodeLine line = (Statement.ofOperands (Text.upper first) mnemonic operands).map
      fun statement => some statement.encode := by
  have hfound := Mnemonic.ofName?_eq_some_iff.mpr hname
  simp only [encodeLine, Statement.ofLine, htokens, hfound]
  cases Statement.ofOperands (Text.upper first) mnemonic operands with
  | error error => rfl
  | ok statement => rfl

theorem encodeLine_of_unknown (htokens : Token.ofLine line = first :: operands)
    (hname : ∀ mnemonic : Mnemonic, ¬mnemonic.Named first) :
    encodeLine line = .ok (some ⟨nop, [.unknownInstruction (Text.upper first)]⟩) := by
  have hnone : Mnemonic.ofName? (Text.upper first) = none := by
    apply Option.eq_none_iff_forall_ne_some.mpr
    intro mnemonic hfound
    exact hname mnemonic (Mnemonic.ofName?_eq_some_iff.mp hfound)
  simp only [encodeLine, Statement.ofLine, htokens, hnone]
  rfl

theorem encodeLine_of_spelled {last : Token} {intent : Intent}
    (hspelled : Intent.Spelled (Token.ofLine line) intent)
    (hlast : (Token.ofLine line).getLast? = some last) :
    encodeLine line =
      .ok (some (intent.encoding (String.ofList (Literal.unmarked last.toList)))) := by
  obtain ⟨statement, hline, hmeans⟩ := Statement.means_of_spelled rfl hspelled
  have hword := Statement.word_of_means hmeans
  have hwarnings := Statement.warnings_of_means hmeans fun literal hliteral =>
    Statement.text_of_literal? hline hliteral hlast
  rw [encodeLine, hline, Intent.encoding, ← hword, ← hwarnings]
  rfl

/-- The assembler makes of a line what its tokens have as an outcome. -/
theorem encodeLine_eq {tokens : List Token} {result : Except LineError (Option Encoding)}
    (houtcome : Outcome tokens result) (htokens : Token.ofLine line = tokens) :
    encodeLine line = result := by
  cases houtcome with
  | blank =>
      rw [encodeLine, Statement.ofLine_eq_none_iff.mpr htokens]
      rfl
  | unknown hname => exact encodeLine_of_unknown htokens hname
  | threeOperands hname hcount =>
      obtain ⟨_, _, _, rfl⟩ := List.length_eq_three.mp hcount
      rw [encodeLine_of_named htokens hname]
      rfl
  | missing hname hcount =>
      rw [Mnemonic.length_slots] at hcount
      rw [encodeLine_of_named htokens hname, Statement.ofOperands_of_missing hcount]
      rfl
  | surplus hname hcount hthree =>
      rw [Mnemonic.length_slots] at hcount
      rw [encodeLine_of_named htokens hname, Statement.ofOperands_of_surplus hcount hthree]
      rfl
  | misfit hname hcount hmisfit =>
      rw [encodeLine_of_named htokens hname, Statement.ofOperands_of_firstMisfit hcount hmisfit]
      rfl
  | accepted hspelled hlast =>
      subst htokens
      exact encodeLine_of_spelled hspelled hlast

/-- Operands that fill the slots of a mnemonic ask for something. -/
theorem exists_spelled (hname : mnemonic.Named first)
    (hfill : List.Forall₂ Slot.Accepts mnemonic.slots operands) :
    ∃ intent, Intent.Spelled (first :: operands) intent := by
  have halike := (Text.upper_eq_iff mnemonic.isName_name).mp hname.upper
  cases mnemonic with
  | nop =>
      obtain _ | _ := hfill
      exact ⟨_, .nop halike⟩
  | mov =>
      obtain ⟨left, right, rfl⟩ := List.length_eq_two.mp hfill.length_eq.symm
      obtain _ | ⟨⟨dest, hdest⟩, _ | ⟨hsource, _ | _⟩⟩ := hfill
      by_cases hmark : right.toList.head? = some '#'
      · obtain ⟨value, hvalue⟩ := (Slot.accepts_source_of_mark hmark).mp hsource
        exact ⟨_, .load halike hdest hmark hvalue⟩
      · obtain ⟨source, hsource⟩ := (Slot.accepts_source_of_not_mark hmark).mp hsource
        exact ⟨_, .copy halike hdest hsource⟩
  | not =>
      obtain _ | ⟨⟨dest, hdest⟩, _ | _⟩ := hfill
      exact ⟨_, .complement halike hdest⟩
  | cmp =>
      obtain _ | ⟨⟨dest, hdest⟩, _ | ⟨⟨source, hsource⟩, _ | _⟩⟩ := hfill
      exact ⟨_, .compare halike hdest hsource⟩
  | binary opcode =>
      obtain _ | ⟨⟨dest, hdest⟩, _ | ⟨⟨source, hsource⟩, _ | _⟩⟩ := hfill
      obtain ⟨operator, rfl⟩ := Operator.isBinary_iff.mp hname.proper
      change Text.alike operator.opcode.mnemonic first = true at halike
      rw [operator.mnemonic_opcode] at halike
      exact ⟨_, .compute halike hdest hsource⟩
  | jump condition =>
      obtain _ | ⟨⟨target, htarget⟩, _ | _⟩ := hfill
      exact ⟨_, .jump halike htarget⟩

theorem exists_of_count_eq (hname : mnemonic.Named first)
    (hcount : operands.length = mnemonic.slots.length) :
    ∃ result, Outcome (first :: operands) result := by
  rcases Slot.fill_or_misfit hcount with hfill | ⟨error, hmisfit⟩
  · obtain ⟨intent, hspelled⟩ := exists_spelled hname hfill
    have hlast : (first :: operands).getLast? = some ((first :: operands).getLast (by simp)) :=
      List.getLast?_eq_some_getLast _
    exact ⟨_, .accepted hspelled hlast⟩
  · exact ⟨_, .misfit hname hcount hmisfit⟩

theorem exists_of_count_gt (hname : mnemonic.Named first)
    (hcount : mnemonic.slots.length < operands.length) :
    ∃ result, Outcome (first :: operands) result := by
  have hsplit := List.take_append_drop mnemonic.slots.length operands
  rw [List.drop_eq_getElem_cons hcount] at hsplit
  have hbefore : (operands.take mnemonic.slots.length).length = mnemonic.slots.length :=
    List.length_take_of_le (Nat.le_of_lt hcount)
  by_cases hthree : operands.length = 3 ∧ ∃ opcode, mnemonic = .binary opcode
  · obtain ⟨hlength, opcode, rfl⟩ := hthree
    exact ⟨_, .threeOperands hname hlength⟩
  · rw [← hsplit]
    refine ⟨_, .surplus hname hbefore ?_⟩
    rintro opcode rfl hafter
    have hlengths := congrArg List.length hsplit
    rw [List.length_append, hbefore, List.length_cons, hafter] at hlengths
    exact hthree ⟨hlengths.symm, opcode, rfl⟩

/-- All tokens have an outcome. -/
theorem exists_outcome (tokens : List Token) : ∃ result, Outcome tokens result := by
  cases tokens with
  | nil => exact ⟨_, .blank⟩
  | cons first operands =>
      by_cases hnamed : ∃ mnemonic : Mnemonic, mnemonic.Named first
      · obtain ⟨mnemonic, hname⟩ := hnamed
        rcases Nat.lt_trichotomy operands.length mnemonic.slots.length with hlt | heq | hgt
        · exact ⟨_, .missing hname hlt⟩
        · exact exists_of_count_eq hname heq
        · exact exists_of_count_gt hname hgt
      · exact ⟨_, .unknown (not_exists.mp hnamed)⟩

theorem outcome_encodeLine (line : String) : Outcome (Token.ofLine line) (encodeLine line) := by
  obtain ⟨result, houtcome⟩ := exists_outcome (Token.ofLine line)
  rwa [houtcome.encodeLine_eq rfl]

end Outcome

/-- The assembler makes something of a line exactly when it is the outcome of the tokens that the
line is read as. -/
theorem encodeLine_eq_iff {line : String} {result : Except LineError (Option Encoding)} :
    encodeLine line = result ↔ ∃ tokens, Token.Reads line tokens ∧ Outcome tokens result := by
  constructor
  · rintro rfl
    exact ⟨_, Token.reads_iff.mpr rfl, Outcome.outcome_encodeLine line⟩
  · rintro ⟨tokens, htokens, houtcome⟩
    exact houtcome.encodeLine_eq (Token.reads_iff.mp htokens)

/-- The operand that is too much is the error, and not the two that are no registers. -/
example : encodeLine "mov r9, x, #2 ; MOV" = .error (.unexpectedOperand "MOV" "#2") := by rfl

end EightBit
