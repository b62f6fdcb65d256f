import EightBit.Machine.Run
import Mathlib.Logic.Function.Iterate

/-!
# Machines in lockstep

Two machines stay in lockstep when a relation between them outlasts every step and shows in the
program counter and in whether the next instruction is a jump. A run looks at nothing else, so runs
of machines in lockstep take as long and end for the same reason.
-/

namespace EightBit.Machine

variable {α β : Type}

/-- What a relation between machines needs so that they stay in lockstep. -/
structure Lockstep (related : Machine → Machine → Prop) : Prop where
  related_step : ∀ {left right}, related left right → related left.step right.step
  pc_eq : ∀ {left right}, related left right → left.state.pc = right.state.pc
  isJump_eq : ∀ {left right}, related left right → left.next.isJump = right.next.isJump

namespace Lockstep

variable {related : Machine → Machine → Prop}

theorem related_iterate (hlockstep : Lockstep related) {left right : Machine}
    (hrelated : related left right) (count : Nat) :
    related (step^[count] left) (step^[count] right) := by
  induction count with
  | zero => exact hrelated
  | succ count ih =>
      rw [Function.iterate_succ_apply', Function.iterate_succ_apply']
      exact hlockstep.related_step ih

theorem holds_eq (hlockstep : Lockstep related) {left right : Machine}
    (hrelated : related left right) (halt : Halt) (cycles : Nat) :
    halt.holds left.next left.state.pc left.step.state.pc cycles =
      halt.holds right.next right.state.pc right.step.state.pc cycles := by
  rw [hlockstep.pc_eq hrelated, hlockstep.pc_eq (hlockstep.related_step hrelated)]
  cases halt with
  | never => rfl
  | atAddress pc least => rfl
  | selfLoop => rw [Halt.holds, Halt.holds, hlockstep.isJump_eq hrelated]

/-- Runs of machines in lockstep are as long as each other, end for the same reason and leave the
machines in lockstep, whatever they gather. -/
theorem related_runFrom (hlockstep : Lockstep related) (halt : Halt) (visit : α → Machine → α)
    (visitRight : β → Machine → β) (budget cycles : Nat) (gathered : α) (gatheredRight : β)
    {left right : Machine} (hrelated : related left right) :
    related (runFrom halt visit budget cycles gathered left).machine
        (runFrom halt visitRight budget cycles gatheredRight right).machine ∧
      (runFrom halt visit budget cycles gathered left).cycles =
        (runFrom halt visitRight budget cycles gatheredRight right).cycles ∧
      (runFrom halt visit budget cycles gathered left).stop =
        (runFrom halt visitRight budget cycles gatheredRight right).stop := by
  induction budget generalizing cycles gathered gatheredRight left right with
  | zero => exact ⟨hrelated, rfl, rfl⟩
  | succ budget ih =>
      have hrange : left.inRange = right.inRange := by
        rw [inRange, inRange, hlockstep.pc_eq hrelated]
      rw [runFrom, runFrom, hrange]
      split
      · dsimp only
        rw [hlockstep.holds_eq hrelated]
        split
        · exact ⟨hlockstep.related_step hrelated, rfl, rfl⟩
        · exact ih (cycles + 1) _ _ (hlockstep.related_step hrelated)
      · exact ⟨hrelated, rfl, rfl⟩

end Lockstep

end EightBit.Machine
