import EightBit.Proofs.Assembler.Recasing
import EightBit.Proofs.Source.Outcome

/-!
# Lines in letters of another case

What is expected of an operand and what a number is worth do not depend on the case of letters, and
a mnemonic is quoted in upper case anyway. So the outcome of a line stays the same when the case of
some of its letters changes, but for the operands and digits that are quoted as they are written.
-/

namespace EightBit

open Text (Recasing)

/-! ## The same but for what is quoted -/

section Quoting

variable (change : Recasing)

/-- The same warning, with the digits that it quotes turned into others by the change. -/
inductive Warning.Recased : Warning → Warning → Prop
  | immediateTruncated {value other : String} {truncated : UInt8}
      (hvalue : change.Turns value other) :
      Recased (.immediateTruncated value truncated) (.immediateTruncated other truncated)
  | targetTruncated {value other : String} {truncated : UInt8}
      (hvalue : change.Turns value other) :
      Recased (.targetTruncated value truncated) (.targetTruncated other truncated)
  | threeOperands {opcode : Opcode} : Recased (.threeOperands opcode) (.threeOperands opcode)
  | unknownInstruction {mnemonic : String} :
      Recased (.unknownInstruction mnemonic) (.unknownInstruction mnemonic)
  | aliasedAsJump {opcode : Opcode} {jump : Condition} :
      Recased (.aliasedAsJump opcode jump) (.aliasedAsJump opcode jump)

/-- The same error, with the operand that it quotes turned into another one by the change. -/
inductive LineError.Recased : LineError → LineError → Prop
  | unknownRegister {token other : Token} (htoken : change.Turns token other) :
      Recased (.unknownRegister token) (.unknownRegister other)
  | missingOperand {mnemonic : String} :
      Recased (.missingOperand mnemonic) (.missingOperand mnemonic)
  | unexpectedOperand {mnemonic : String} {operand other : Token}
      (hoperand : change.Turns operand other) :
      Recased (.unexpectedOperand mnemonic operand) (.unexpectedOperand mnemonic other)
  | invalidNumber {token other : Token} (htoken : change.Turns token other) :
      Recased (.invalidNumber token) (.invalidNumber other)

/-- The same outcome, but for what the change turns into something else where it is quoted. -/
inductive Outcome.Recased :
    Except LineError (Option Encoding) → Except LineError (Option Encoding) → Prop
  | blank : Recased (.ok none) (.ok none)
  | word {word : UInt8} {warnings others : List Warning}
      (hwarnings : List.Forall₂ (Warning.Recased change) warnings others) :
      Recased (.ok (some ⟨word, warnings⟩)) (.ok (some ⟨word, others⟩))
  | error {error other : LineError} (herror : error.Recased change other) :
      Recased (.error error) (.error other)

end Quoting

section Change

variable {change : Recasing} {tokens others : List Token}

/-- The same is asked for in letters of either case. -/
theorem Intent.Spelled.of_turns {intent : Intent} (hspelled : Spelled tokens intent)
    (hturns : List.Forall₂ change.Turns tokens others) : Spelled others intent := by
  have hmnemonic {name first other : String} (hturn : change.Turns first other)
      (hname : Text.alike name first = true) : Text.alike name other = true := by
    rwa [← Text.alike_eq_of_alike hturn.alike]
  have hregister {operand other : Token} {register : Register}
      (hturn : change.Turns operand other) (hnames : Register.Names operand register) :
      Register.Names other register :=
    (Register.names_iff_of_alike hturn.alike).mp hnames
  have hnumber {operand other : Token} {value : Nat} (hturn : change.Turns operand other)
      (hdenotes : Literal.Denotes operand value) : Literal.Denotes other value :=
    (Literal.denotes_iff_of_alike hturn.alike).mp hdenotes
  cases hspelled with
  | nop hname =>
      obtain _ | ⟨hfirst, _ | _⟩ := hturns
      exact .nop (hmnemonic hfirst hname)
  | load hname hdest hmark hvalue =>
      obtain _ | ⟨hfirst, _ | ⟨hleft, _ | ⟨hright, _ | _⟩⟩⟩ := hturns
      exact .load (hmnemonic hfirst hname) (hregister hleft hdest)
        ((head?_eq_mark_iff_of_alike hright.alike).mp hmark) (hnumber hright hvalue)
  | copy hname hdest hsource =>
      obtain _ | ⟨hfirst, _ | ⟨hleft, _ | ⟨hright, _ | _⟩⟩⟩ := hturns
      exact .copy (hmnemonic hfirst hname) (hregister hleft hdest) (hregister hright hsource)
  | compute hname hdest hsource =>
      obtain _ | ⟨hfirst, _ | ⟨hleft, _ | ⟨hright, _ | _⟩⟩⟩ := hturns
      exact .compute (hmnemonic hfirst hname) (hregister hleft hdest) (hregister hright hsource)
  | complement hname hdest =>
      obtain _ | ⟨hfirst, _ | ⟨hleft, _ | _⟩⟩ := hturns
      exact .complement (hmnemonic hfirst hname) (hregister hleft hdest)
  | compare hname hdest hsource =>
      obtain _ | ⟨hfirst, _ | ⟨hleft, _ | ⟨hright, _ | _⟩⟩⟩ := hturns
      exact .compare (hmnemonic hfirst hname) (hregister hleft hdest) (hregister hright hsource)
  | jump hname htarget =>
      obtain _ | ⟨hfirst, _ | ⟨hleft, _ | _⟩⟩ := hturns
      exact .jump (hmnemonic hfirst hname) (hnumber hleft htarget)

/-- There is the same to say about the word, in digits of either case. -/
theorem Intent.warnings_recased {digits other : String} (hdigits : change.Turns digits other)
    (intent : Intent) :
    List.Forall₂ (Warning.Recased change) (intent.warnings digits) (intent.warnings other) := by
  have hsingle {warning another : Warning} (hwarning : warning.Recased change another)
      (p : Prop) [Decidable p] :
      List.Forall₂ (Warning.Recased change) (if p then [warning] else [])
        (if p then [another] else []) := by
    split
    · exact .cons hwarning .nil
    · exact .nil
  cases intent with
  | nop => exact .nil
  | load => exact hsingle (.immediateTruncated hdigits) _
  | copy => exact .nil
  | compute operator =>
      cases operator with
      | add => exact .nil
      | mul => exact .nil
      | and => exact .nil
      | or => exact hsingle .aliasedAsJump _
      | xor => exact hsingle .aliasedAsJump _
  | complement => exact .nil
  | compare => exact hsingle .aliasedAsJump _
  | jump => exact hsingle (.targetTruncated hdigits) _

theorem Slot.fault_recased {operand other : Token} (hturns : change.Turns operand other)
    (slot : Slot) : (slot.fault operand).Recased change (slot.fault other) := by
  cases slot with
  | register => exact .unknownRegister hturns
  | number => exact .invalidNumber hturns
  | source =>
      simp only [fault, head?_eq_mark_iff_of_alike hturns.alike]
      split
      · exact .invalidNumber hturns
      · exact .unknownRegister hturns

/-- The first operand that is not what it has to be is at the same place after the change. -/
theorem Slot.FirstMisfit.recased {slots : List Slot} {error : LineError}
    (hmisfit : FirstMisfit slots tokens error)
    (hturns : List.Forall₂ change.Turns tokens others) :
    ∃ other, FirstMisfit slots others other ∧ error.Recased change other := by
  induction hmisfit generalizing others with
  | @here slot _ _ _ hmisfit =>
      obtain _ | ⟨hfirst, hrest⟩ := hturns
      rw [accepts_iff_of_alike hfirst.alike] at hmisfit
      exact ⟨_, .here hmisfit, slot.fault_recased hfirst⟩
  | later haccepts _ ih =>
      obtain _ | ⟨hfirst, hrest⟩ := hturns
      obtain ⟨other, hother, herror⟩ := ih hrest
      rw [accepts_iff_of_alike hfirst.alike] at haccepts
      exact ⟨other, .later haccepts hother, herror⟩

/-- A token among others is turned into one that has as many others around it. -/
theorem exists_of_turns_append {before after : List Token} {extra : Token}
    (hturns : List.Forall₂ change.Turns (before ++ extra :: after) others) :
    ∃ front other back, others = front ++ other :: back ∧ front.length = before.length ∧
      back.length = after.length ∧ change.Turns extra other := by
  induction before generalizing others with
  | nil =>
      obtain _ | ⟨hextra, hafter⟩ := hturns
      exact ⟨[], _, _, rfl, rfl, hafter.length_eq.symm, hextra⟩
  | cons token before ih =>
      obtain _ | ⟨_, hrest⟩ := hturns
      obtain ⟨front, other, back, rfl, hfront, hback, hextra⟩ := ih hrest
      exact ⟨_ :: front, other, back, rfl, congrArg Nat.succ hfront, hback, hextra⟩

theorem exists_getLast?_of_turns {last : Token}
    (hturns : List.Forall₂ change.Turns tokens others) (hlast : tokens.getLast? = some last) :
    ∃ other, others.getLast? = some other ∧ change.Turns last other := by
  obtain ⟨before, rfl⟩ := List.getLast?_eq_some_iff.mp hlast
  obtain ⟨front, other, back, rfl, _, hback, hturn⟩ := exists_of_turns_append hturns
  obtain rfl := List.length_eq_zero_iff.mp hback
  exact ⟨other, List.getLast?_concat, hturn⟩

/-- Tokens that are turned into others have the same outcome as those, but for what is quoted. -/
theorem Outcome.recased {result : Except LineError (Option Encoding)}
    (houtcome : Outcome tokens result) (hturns : List.Forall₂ change.Turns tokens others) :
    ∃ other, Outcome others other ∧ Outcome.Recased change result other := by
  cases houtcome with
  | blank =>
      obtain _ | _ := hturns
      exact ⟨_, .blank, .blank⟩
  | unknown hname =>
      obtain _ | ⟨hfirst, _⟩ := hturns
      refine ⟨_, .unknown fun mnemonic => ?_, ?_⟩
      · rw [← Mnemonic.named_iff_of_alike hfirst.alike]
        exact hname mnemonic
      · rw [Text.upper_eq_of_alike hfirst.alike]
        exact .word (.cons .unknownInstruction .nil)
  | threeOperands hname hcount =>
      obtain _ | ⟨hfirst, hrest⟩ := hturns
      rw [Mnemonic.named_iff_of_alike hfirst.alike] at hname
      rw [hrest.length_eq] at hcount
      exact ⟨_, .threeOperands hname hcount, .word (.cons .threeOperands .nil)⟩
  | missing hname hcount =>
      obtain _ | ⟨hfirst, hrest⟩ := hturns
      rw [Mnemonic.named_iff_of_alike hfirst.alike] at hname
      rw [hrest.length_eq] at hcount
      refine ⟨_, .missing hname hcount, ?_⟩
      rw [Text.upper_eq_of_alike hfirst.alike]
      exact .error .missingOperand
  | surplus hname hcount hthree =>
      obtain _ | ⟨hfirst, hrest⟩ := hturns
      obtain ⟨front, other, back, rfl, hfront, hback, hextra⟩ := exists_of_turns_append hrest
      rw [Mnemonic.named_iff_of_alike hfirst.alike] at hname
      simp only [← List.length_pos_iff, ← hback] at hthree
      refine ⟨_, .surplus hname (hfront.trans hcount) ?_, ?_⟩
      · simpa only [List.length_pos_iff] using hthree
      · rw [Text.upper_eq_of_alike hfirst.alike]
        exact .error (.unexpectedOperand hextra)
  | misfit hname hcount hmisfit =>
      obtain _ | ⟨hfirst, hrest⟩ := hturns
      obtain ⟨error, herror, hrecased⟩ := hmisfit.recased hrest
      rw [Mnemonic.named_iff_of_alike hfirst.alike] at hname
      rw [hrest.length_eq] at hcount
      exact ⟨_, .misfit hname hcount herror, .error hrecased⟩
  | @accepted _ _ intent hspelled hlast =>
      obtain ⟨other, hother, hturn⟩ := exists_getLast?_of_turns hturns hlast
      -- The digits that a warning quotes are those of the last token.
      have hdigits := Literal.turns_unmarked hturn
      exact ⟨_, .accepted (hspelled.of_turns hturns) hother,
        .word (intent.warnings_recased hdigits)⟩

end Change

/-- Lines that are alike are those that a change of the case of some letters leads between, and the
assembler makes the same of the line before and after such a change, but for the letters of what it
quotes: the digits of a number that is cut, and the operand that an error is about. -/
theorem encodeLine_recased :
    (∀ line other : String, Text.alike line other = true ↔
      ∃ change : Recasing, change.before = line ∧ change.after = other) ∧
    ∀ change : Recasing,
      Outcome.Recased change (encodeLine change.before) (encodeLine change.after) := by
  refine ⟨fun _ _ => Text.alike_iff_exists_recasing, fun change => ?_⟩
  have houtcome := Outcome.outcome_encodeLine change.before
  obtain ⟨result, hresult, hrecased⟩ := houtcome.recased (Token.turns_ofLine change)
  rwa [hresult.encodeLine_eq rfl]

end EightBit
