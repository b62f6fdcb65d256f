import EightBit.Proofs.Machine.Stopping

/-!
# Runs in parts

A run can be stopped when it has spent a part of its budget and taken up again with the rest. The
halt condition is the same in both parts, but for the instructions that it waits for: of those, the
first part has already executed some.
-/

namespace EightBit

/-- What is left of a halt condition when a run has executed some instructions. -/
def Halt.after (executed : Nat) : Halt → Halt
  | .never => .never
  | .atAddress pc least => .atAddress pc (least - executed)
  | .selfLoop => .selfLoop

/-- What is left of a halt condition holds when the condition does. At least one instruction has to
be executed, or else a condition that has waited long enough would hold too early. -/
theorem Halt.holds_after (halt : Halt) (executed cycles : Nat) (instruction : Instruction)
    (before after : UInt8) :
    (halt.after executed).holds instruction before after (cycles + 1) =
      halt.holds instruction before after (executed + cycles + 1) := by
  cases halt with
  | never => rfl
  | atAddress pc least =>
      have hleast : least - executed < cycles + 1 ↔ least < executed + cycles + 1 := by omega
      rw [Halt.after, Halt.holds, Halt.holds, decide_eq_decide.mpr hleast]
  | selfLoop => rfl

/-- The run with some instructions counted that were executed before it. -/
def Run.counting {α : Type} (executed : Nat) (run : Run α) : Run α :=
  { run with cycles := executed + run.cycles }

namespace Machine

variable {α : Type} {halt : Halt} {visit : α → Machine → α}

/-! ## Larger budgets -/

/-- A run that has not spent its budget ends as it does with a larger one. -/
theorem runFrom_add_of_ended {budget cycles : Nat} {gathered : α} {machine : Machine}
    (hstop : (runFrom halt visit budget cycles gathered machine).stop ≠ .budgetSpent)
    (more : Nat) :
    runFrom halt visit (budget + more) cycles gathered machine =
      runFrom halt visit budget cycles gathered machine := by
  induction budget generalizing cycles gathered machine with
  | zero => exact absurd rfl hstop
  | succ budget ih =>
      rw [runFrom] at hstop
      rw [Nat.add_right_comm, runFrom, runFrom]
      split
      · rename_i hrange
        rw [if_pos hrange] at hstop
        dsimp only at hstop ⊢
        split
        · rfl
        · rename_i hgoing
          rw [if_neg hgoing] at hstop
          exact ih hstop
      · rfl

/-- A run that has spent its budget goes on with a larger one from where it is. -/
theorem runFrom_add_of_spent {budget cycles : Nat} {gathered : α} {machine : Machine}
    (hstop : (runFrom halt visit budget cycles gathered machine).stop = .budgetSpent)
    (more : Nat) :
    (runFrom halt visit budget cycles gathered machine).cycles = budget + cycles ∧
      runFrom halt visit (budget + more) cycles gathered machine =
        runFrom halt visit more (budget + cycles)
          (runFrom halt visit budget cycles gathered machine).gathered
          (runFrom halt visit budget cycles gathered machine).machine := by
  induction budget generalizing cycles gathered machine with
  | zero =>
      rw [Nat.zero_add, Nat.zero_add]
      exact ⟨rfl, rfl⟩
  | succ budget ih =>
      rw [runFrom] at hstop ⊢
      rw [Nat.add_right_comm budget 1 more, runFrom, Nat.add_right_comm budget 1 cycles]
      split
      · rename_i hrange
        rw [if_pos hrange] at hstop
        dsimp only at hstop ⊢
        split
        · rename_i hholds
          rw [if_pos hholds] at hstop
          cases hstop
        · rename_i hgoing
          rw [if_neg hgoing] at hstop
          exact ih hstop
      · rename_i hrange
        rw [if_neg hrange] at hstop
        cases hstop

/-! ## Counting anew -/

/-- A run that counts its instructions from the middle of another one on, and waits only for those
that are left, is the rest of that run. -/
theorem runFrom_after (executed budget cycles : Nat) (gathered : α) (machine : Machine) :
    runFrom halt visit budget (executed + cycles) gathered machine =
      (runFrom (halt.after executed) visit budget cycles gathered machine).counting executed := by
  induction budget generalizing cycles gathered machine with
  | zero => rfl
  | succ budget ih =>
      rw [runFrom, runFrom]
      dsimp only
      rw [Halt.holds_after]
      split
      · split
        · rfl
        · exact ih (cycles + 1) _ _
      · rfl

/-- A run may be split at any point of its budget. If its first part does not spend its budget, that
part is all there is to the run. If it does, the run that goes on from there with the rest of the
budget and what is left of the halt condition ends in the same state and for the same reason, and
the two parts together are as long as the whole. -/
theorem run_splits (machine : Machine) (halt : Halt) (budget more : Nat) :
    ((machine.run ⟨budget, halt⟩).stop ≠ .budgetSpent →
        (machine.run ⟨budget + more, halt⟩).summary = (machine.run ⟨budget, halt⟩).summary) ∧
      ((machine.run ⟨budget, halt⟩).stop = .budgetSpent →
        let rest := (machine.run ⟨budget, halt⟩).machine.run ⟨more, halt.after budget⟩
        (machine.run ⟨budget + more, halt⟩).machine = rest.machine ∧
          (machine.run ⟨budget + more, halt⟩).stop = rest.stop ∧
          (machine.run ⟨budget + more, halt⟩).cycles =
            (machine.run ⟨budget, halt⟩).cycles + rest.cycles) := by
  constructor
  · intro hstop
    exact congrArg Run.summary (runFrom_add_of_ended hstop more)
  · intro hstop
    obtain ⟨hcycles, hwhole⟩ := runFrom_add_of_spent hstop more
    have hrest : machine.run ⟨budget + more, halt⟩ =
        ((machine.run ⟨budget, halt⟩).machine.run ⟨more, halt.after budget⟩).counting budget :=
      hwhole.trans (runFrom_after budget more 0 _ _)
    have hfirst : (machine.run ⟨budget, halt⟩).cycles = budget := hcycles
    rw [hrest, hfirst]
    exact ⟨rfl, rfl, rfl⟩

/-- The loop of two instructions halts at address `1` after more than four of them. A budget of
three is spent before that, and one of seven is not. -/
theorem run_splits_loop :
    let machine := start ⟨#v[0, 0x78, 0, 0, 0, 0, 0, 0, 0, 0, 0, 0, 0, 0, 0, 0]⟩
    let first := machine.run ⟨3, .atAddress 1 4⟩
    first.stop = .budgetSpent ∧
      (machine.run ⟨12, .atAddress 1 4⟩).machine = (first.machine.run ⟨9, .atAddress 1 1⟩).machine ∧
      (machine.run ⟨12, .atAddress 1 4⟩).stop = (first.machine.run ⟨9, .atAddress 1 1⟩).stop ∧
      (machine.run ⟨12, .atAddress 1 4⟩).cycles =
        first.cycles + (first.machine.run ⟨9, .atAddress 1 1⟩).cycles ∧
      (machine.run ⟨7, .atAddress 1 4⟩).stop ≠ .budgetSpent ∧
      (machine.run ⟨12, .atAddress 1 4⟩).summary = (machine.run ⟨7, .atAddress 1 4⟩).summary := by
  intro machine first
  have hspent : first.stop = .budgetSpent := by decide
  have hended : (machine.run ⟨7, .atAddress 1 4⟩).stop ≠ .budgetSpent := by decide
  obtain ⟨hmachine, hstop, hcycles⟩ := (run_splits machine (.atAddress 1 4) 3 9).2 hspent
  have hsummary := (run_splits machine (.atAddress 1 4) 7 5).1 hended
  exact ⟨hspent, hmachine, hstop, hcycles, hended, hsummary⟩

end Machine

end EightBit
