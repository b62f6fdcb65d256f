import EightBit.Proofs.Assembler.Literals
import EightBit.Proofs.Assembler.Parsing
import Mathlib.Data.List.Basic

/-!
# What operands have to be

Every mnemonic has a slot for each of its operands. Operands that do not fill the slots are reported
with one error: that of their number, or else that of the first of them that its slot does not take.
-/

namespace EightBit

/-- What an operand has to be. -/
inductive Slot where
  | register
  | number
  /-- A number when the operand begins with a `#`, and a register otherwise. -/
  | source
deriving DecidableEq, Repr

namespace Slot

def Accepts : Slot → Token → Prop
  | .register, operand => ∃ register, Register.Names operand register
  | .number, operand => ∃ value, Literal.Denotes operand value
  | .source, operand =>
    if operand.toList.head? = some '#' then ∃ value, Literal.Denotes operand value
    else ∃ register, Register.Names operand register

theorem accepts_source_of_mark {operand : Token} (hmark : operand.toList.head? = some '#') :
    source.Accepts operand ↔ number.Accepts operand := by
  simp [Accepts, hmark]

theorem accepts_source_of_not_mark {operand : Token} (hmark : operand.toList.head? ≠ some '#') :
    source.Accepts operand ↔ register.Accepts operand := by
  simp [Accepts, hmark]

/-- The error of an operand that is not what it has to be. -/
def fault : Slot → Token → LineError
  | .register, operand => .unknownRegister operand
  | .number, operand => .invalidNumber operand
  | .source, operand =>
    if operand.toList.head? = some '#' then .invalidNumber operand else .unknownRegister operand

/-- The error of the first operand, from left to right, that is not what it has to be. -/
inductive FirstMisfit : List Slot → List Token → LineError → Prop
  | here {slot : Slot} {slots : List Slot} {operand : Token} {operands : List Token}
      (hmisfit : ¬slot.Accepts operand) :
      FirstMisfit (slot :: slots) (operand :: operands) (slot.fault operand)
  | later {slot : Slot} {slots : List Slot} {operand : Token} {operands : List Token}
      {error : LineError} (haccepts : slot.Accepts operand)
      (hrest : FirstMisfit slots operands error) :
      FirstMisfit (slot :: slots) (operand :: operands) error

theorem FirstMisfit.single {slot : Slot} {operand : Token} {error : LineError}
    (hmisfit : FirstMisfit [slot] [operand] error) :
    ¬slot.Accepts operand ∧ error = slot.fault operand := by
  cases hmisfit with
  | here hmisfit => exact ⟨hmisfit, rfl⟩
  | later _ hrest => cases hrest

theorem FirstMisfit.pair {left right : Slot} {first second : Token} {error : LineError}
    (hmisfit : FirstMisfit [left, right] [first, second] error) :
    ¬left.Accepts first ∧ error = left.fault first ∨
      left.Accepts first ∧ ¬right.Accepts second ∧ error = right.fault second := by
  cases hmisfit with
  | here hmisfit => exact Or.inl ⟨hmisfit, rfl⟩
  | later haccepts hrest => exact Or.inr ⟨haccepts, hrest.single⟩

/-- Operands fill their slots, or one of them is the first that does not. -/
theorem fill_or_misfit {slots : List Slot} {operands : List Token}
    (hlength : operands.length = slots.length) :
    List.Forall₂ Accepts slots operands ∨ ∃ error, FirstMisfit slots operands error := by
  induction slots generalizing operands with
  | nil =>
      obtain rfl := List.length_eq_zero_iff.mp hlength
      exact Or.inl .nil
  | cons slot slots ih =>
      obtain ⟨operand, operands, rfl⟩ := List.exists_cons_of_length_eq_add_one hlength
      by_cases haccepts : slot.Accepts operand
      · rcases ih (Nat.succ.inj hlength) with hfill | ⟨error, hrest⟩
        · exact Or.inl (.cons haccepts hfill)
        · exact Or.inr ⟨error, .later haccepts hrest⟩
      · exact Or.inr ⟨_, .here haccepts⟩

end Slot

def Mnemonic.slots : Mnemonic → List Slot
  | .nop => []
  | .mov => [.register, .source]
  | .not => [.register]
  | .cmp | .binary _ => [.register, .register]
  | .jump _ => [.number]

theorem Mnemonic.length_slots (mnemonic : Mnemonic) :
    mnemonic.slots.length = mnemonic.arity := by
  cases mnemonic <;> rfl

namespace Statement

variable {operand first second : Token} {operands : List Token} {mnemonic : Mnemonic}
  {error : LineError}

theorem register_of_accepts (haccepts : Slot.register.Accepts operand) :
    ∃ dest, Statement.register operand = .ok dest := by
  obtain ⟨dest, hnames⟩ := haccepts
  exact ⟨dest, register_eq_ok_iff.mpr (Register.ofToken?_eq_some_iff.mpr hnames)⟩

theorem register_of_misfit (hmisfit : ¬Slot.register.Accepts operand) :
    Statement.register operand = .error (.unknownRegister operand) := by
  cases hoperand : Register.ofToken? operand with
  | none => simp only [Statement.register, hoperand]
  | some dest => exact absurd ⟨dest, Register.ofToken?_eq_some_iff.mp hoperand⟩ hmisfit

theorem number_of_misfit (hmisfit : ¬Slot.number.Accepts operand) :
    number operand = .error (.invalidNumber operand) := by
  cases hoperand : Literal.ofToken? operand with
  | none => simp only [number, hoperand]
  | some literal =>
      obtain ⟨value, hdenotes, _⟩ := Literal.denotes_of_ofToken? hoperand
      exact absurd ⟨value, hdenotes⟩ hmisfit

/-! ## The number of operands -/

theorem wrongCount_of_lt (name : String) {arity : Nat} (hlt : operands.length < arity) :
    wrongCount name arity operands = .missingOperand name := by
  rw [wrongCount, List.getElem?_eq_none (Nat.le_of_lt hlt)]

theorem wrongCount_of_surplus (name : String) (before after : List Token) (extra : Token) :
    wrongCount name before.length (before ++ extra :: after) = .unexpectedOperand name extra := by
  simp [wrongCount]

/-- A wrong number of operands is the error, whatever they are. A binary operation takes three
without a look at them. -/
theorem ofOperands_of_wrong_count (hcount : operands.length ≠ mnemonic.arity)
    (hthree : ∀ opcode, mnemonic = .binary opcode → operands.length ≠ 3) (name : String) :
    ofOperands name mnemonic operands = .error (wrongCount name mnemonic.arity operands) := by
  unfold ofOperands
  split
  case h_6 opcode _ _ _ => exact absurd rfl (hthree opcode rfl)
  case h_8 => rfl
  -- In the other cases the operands are as many as the mnemonic takes.
  all_goals exact absurd rfl hcount

theorem ofOperands_of_missing (hcount : operands.length < mnemonic.arity) (name : String) :
    ofOperands name mnemonic operands = .error (.missingOperand name) := by
  rw [ofOperands_of_wrong_count (Nat.ne_of_lt hcount), wrongCount_of_lt name hcount]
  rintro opcode rfl
  exact Nat.ne_of_lt (Nat.lt_succ_of_lt hcount)

theorem ofOperands_of_surplus {before after : List Token} {extra : Token}
    (hcount : before.length = mnemonic.arity)
    (hthree : ∀ opcode, mnemonic = .binary opcode → after ≠ []) (name : String) :
    ofOperands name mnemonic (before ++ extra :: after) =
      .error (.unexpectedOperand name extra) := by
  rw [ofOperands_of_wrong_count, ← hcount, wrongCount_of_surplus]
  · simp [hcount]
  · rintro opcode rfl
    have hafter := List.length_pos_iff.mpr (hthree opcode rfl)
    simp only [List.length_append, List.length_cons, hcount, Mnemonic.arity]
    omega

/-! ## The operands themselves -/

theorem bind_error {ε α β : Type} {x : Except ε α} {e : ε} (hx : x = .error e)
    (f : α → Except ε β) : x >>= f = .error e := by
  rw [hx]
  rfl

theorem bind_registers_error
    (hmisfit : Slot.FirstMisfit [.register, .register] [first, second] error)
    (f : Register → Register → Except LineError Statement) :
    (do f (← Statement.register first) (← Statement.register second)) = .error error := by
  rcases hmisfit.pair with ⟨hdest, rfl⟩ | ⟨hdest, hsource, rfl⟩
  · exact bind_error (register_of_misfit hdest) _
  · obtain ⟨dest, hdest⟩ := register_of_accepts hdest
    rw [hdest]
    exact bind_error (register_of_misfit hsource) _

/-- The source of a `MOV` is read as its first character says. -/
theorem ofOperands_mov_of_misfit (hdest : Slot.register.Accepts first)
    (hmisfit : ¬Slot.source.Accepts second) (name : String) :
    ofOperands name .mov [first, second] = .error (Slot.source.fault second) := by
  obtain ⟨dest, hdest⟩ := register_of_accepts hdest
  by_cases hmark : second.toList.head? = some '#'
  · rw [Slot.accepts_source_of_mark hmark] at hmisfit
    have hnumber := number_of_misfit hmisfit
    simp only [ofOperands, Slot.fault, hdest, hmark, hnumber]
    rfl
  · rw [Slot.accepts_source_of_not_mark hmark] at hmisfit
    have hregister := register_of_misfit hmisfit
    simp only [ofOperands, Slot.fault, hdest, hregister]
    rw [if_neg hmark]
    exact if_neg hmark

/-- Among as many operands as there are slots, the first that does not fit is the error. -/
theorem ofOperands_of_firstMisfit (hcount : operands.length = mnemonic.slots.length)
    (hmisfit : Slot.FirstMisfit mnemonic.slots operands error) (name : String) :
    ofOperands name mnemonic operands = .error error := by
  cases mnemonic with
  | nop => cases hmisfit
  | mov =>
      obtain ⟨first, second, rfl⟩ := List.length_eq_two.mp hcount
      rcases hmisfit.pair with ⟨hdest, rfl⟩ | ⟨hdest, hsource, rfl⟩
      · exact bind_error (register_of_misfit hdest) _
      · exact ofOperands_mov_of_misfit hdest hsource name
  | not =>
      obtain ⟨first, rfl⟩ := List.length_eq_one_iff.mp hcount
      obtain ⟨hdest, rfl⟩ := hmisfit.single
      exact bind_error (register_of_misfit hdest) _
  | cmp =>
      obtain ⟨first, second, rfl⟩ := List.length_eq_two.mp hcount
      exact bind_registers_error hmisfit _
  | binary opcode =>
      obtain ⟨first, second, rfl⟩ := List.length_eq_two.mp hcount
      exact bind_registers_error hmisfit _
  | jump condition =>
      obtain ⟨first, rfl⟩ := List.length_eq_one_iff.mp hcount
      obtain ⟨htarget, rfl⟩ := hmisfit.single
      exact bind_error (number_of_misfit htarget) _

end Statement

end EightBit
