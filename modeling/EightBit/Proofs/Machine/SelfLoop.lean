import EightBit.Proofs.Machine.Stopping

/-!
# Jumps to their own address

A step that leaves the registers, the program counter and the flag as they are is a taken jump to
its own address, and then no later step changes them either. So a run that halts at such a jump
comes to the same state as a run that never halts and spends its budget there.
-/

namespace EightBit

namespace State

theorem add_one_ne (pc : UInt8) : pc + 1 ≠ pc := by
  intro hsame
  have hnat : (pc.toNat + 1) % 2 ^ 8 = pc.toNat := congrArg UInt8.toNat hsame
  have hlt := pc.toNat_lt
  omega

/-- An instruction leaves the state as it is when it is a jump that leaves the program counter. -/
theorem execute_eq_self_iff {state : State} {instruction : Instruction} :
    state.execute instruction = state ↔
      instruction.isJump = true ∧ (state.execute instruction).pc = state.pc := by
  cases instruction with
  | operation opcode dest source =>
      constructor
      · intro hsame
        have hpc : state.pc + 1 = state.pc := congrArg State.pc hsame
        exact absurd hpc (add_one_ne state.pc)
      · intro hjump
        exact absurd hjump.1 Bool.false_ne_true
  | jump condition target =>
      constructor
      · intro hsame
        exact ⟨rfl, congrArg State.pc hsame⟩
      · intro hjump
        exact State.ext rfl hjump.2 rfl

end State

namespace Machine

/-! ## Settled machines -/

/-- The next step leaves the registers, the program counter and the flag as they are. -/
def Settled (machine : Machine) : Prop :=
  machine.step.state = machine.state

theorem settled_iff {machine : Machine} :
    Settled machine ↔
      machine.next.isJump = true ∧ machine.step.state.pc = machine.state.pc :=
  State.execute_eq_self_iff

theorem Settled.step {machine : Machine} (hsettled : Settled machine) : Settled machine.step := by
  have hsame : machine.step.state = machine.state := hsettled
  have hnext : machine.step.next = machine.next := by
    rw [next, next, word, word, rom_step, hsame]
  rw [Settled, state_step, hnext, hsame]
  exact hsettled

/-- Nothing can leave the loop: no later step changes the state of a settled machine. -/
theorem Settled.state_iterate {machine : Machine} (hsettled : Settled machine) (count : Nat) :
    (Machine.step^[count] machine).state = machine.state := by
  induction count generalizing machine with
  | zero => rfl
  | succ count ih =>
      rw [Function.iterate_succ_apply, ih hsettled.step]
      exact hsettled

theorem state_iterate_of_le {machine : Machine} {count later : Nat}
    (hsettled : Settled (step^[count] machine)) (hle : count ≤ later) :
    (step^[later] machine).state = (step^[count] machine).state := by
  obtain ⟨more, rfl⟩ := Nat.exists_eq_add_of_le hle
  rw [Nat.add_comm, Function.iterate_add_apply]
  exact hsettled.state_iterate more

/-! ## Runs -/

theorem haltsAt_selfLoop_iff {machine : Machine} {count : Nat} :
    HaltsAt .selfLoop machine (count + 1) ↔ Settled (step^[count] machine) := by
  rw [HaltsAt, Function.iterate_succ_apply', settled_iff]

theorem not_haltsAt_never {machine : Machine} {count : Nat} : ¬HaltsAt .never machine count := by
  cases count <;> exact id

/-- A run that halts at settled machines halts after the first step that leaves the state as it is,
provided that this step is within the budget and at no point before it the program counter is out of
range. -/
theorem summary_run_selfLoop_eq_iff {machine : Machine} {budget count : Nat} :
    (machine.run ⟨budget, .selfLoop⟩).summary =
        ⟨(step^[count] machine).state, count + 1, .halted⟩ ↔
      count < budget ∧ IsLeast {count | Settled (step^[count] machine)} count ∧
        ∀ earlier ≤ count, (step^[earlier] machine).state.pc ≤ 15 := by
  obtain ⟨last, hlast, hbudget, hrun⟩ := run_ends ⟨budget, .selfLoop⟩ machine
  rw [hrun, Run.summary, Summary.mk.injEq, stopAt_eq_halted_iff]
  constructor
  · rintro ⟨_, rfl, hhalts⟩
    refine ⟨hbudget, ⟨haltsAt_selfLoop_iff.mp hhalts, ?_⟩, ?_⟩
    · intro other hother
      have hle := hlast.2 (Or.inl (haltsAt_selfLoop_iff.mpr hother))
      omega
    · intro earlier hearlier
      exact pc_le_of_lt_last hlast (Nat.lt_succ_of_le hearlier)
  · rintro ⟨hspare, ⟨hsettled, hfirst⟩, hrange⟩
    have hhalts : HaltsAt .selfLoop machine (count + 1) := haltsAt_selfLoop_iff.mpr hsettled
    have hend : IsLeast {count | EndsAt ⟨budget, .selfLoop⟩ machine count} (count + 1) := by
      apply isLeast_endsAt (Or.inl hhalts)
      rintro earlier hearlier (hhaltsBefore | hspent | hleft)
      · cases earlier with
        | zero => exact hhaltsBefore
        | succ earlier =>
            have hle := hfirst (haltsAt_selfLoop_iff.mp hhaltsBefore)
            omega
      · dsimp only at hspent
        omega
      · exact UInt8.not_lt.mpr (hrange earlier (Nat.le_of_lt_succ hearlier)) hleft
    obtain rfl := hlast.unique hend
    refine ⟨?_, rfl, hhalts⟩
    rw [Function.iterate_succ_apply']
    exact hsettled

/-- A run that has not halted is the run that never halts. -/
theorem summary_run_never_of_not_halted {machine : Machine} {budget : Nat}
    (hstop : (machine.run ⟨budget, .selfLoop⟩).stop ≠ .halted) :
    (machine.run ⟨budget, .never⟩).summary = (machine.run ⟨budget, .selfLoop⟩).summary := by
  obtain ⟨last, hlast, _, hrun⟩ := run_ends ⟨budget, .selfLoop⟩ machine
  obtain ⟨final, hfinal, _, hnever⟩ := run_ends ⟨budget, .never⟩ machine
  rw [hrun, ne_eq, stopAt_eq_halted_iff] at hstop
  have hend : IsLeast {count | EndsAt ⟨budget, .never⟩ machine count} last := by
    refine ⟨hlast.1.resolve_left hstop |> Or.inr, ?_⟩
    intro other hother
    exact hlast.2 (Or.inr (hother.resolve_left not_haltsAt_never))
  obtain rfl := hfinal.unique hend
  rw [hrun, hnever, Run.summary, Run.summary, stopAt, stopAt, if_neg hstop,
    if_neg not_haltsAt_never]

/-- A run that never halts stays in the state in which the other one halts, and spends its
budget. -/
theorem summary_run_never_of_halted {machine : Machine} {budget : Nat}
    (hstop : (machine.run ⟨budget, .selfLoop⟩).stop = .halted) :
    (machine.run ⟨budget, .never⟩).summary =
      ⟨(machine.run ⟨budget, .selfLoop⟩).machine.state, budget, .budgetSpent⟩ := by
  obtain ⟨last, hlast, hbudget, hrun⟩ := run_ends ⟨budget, .selfLoop⟩ machine
  obtain ⟨final, hfinal, hle, hnever⟩ := run_ends ⟨budget, .never⟩ machine
  rw [hrun, stopAt_eq_halted_iff] at hstop
  cases last with
  | zero => exact absurd hstop id
  | succ count =>
      have hsettled := haltsAt_selfLoop_iff.mp hstop
      -- The other run cannot leave the memory: not before the jump, and not from there on.
      have hinside (point : Nat) : ¬15 < (step^[point] machine).state.pc := by
        intro hleft
        rcases Nat.le_total point count with hbefore | hafter
        · have hlast := hlast.2 (Or.inr (Or.inr hleft))
          omega
        · rw [state_iterate_of_le hsettled hafter] at hleft
          have hlast := hlast.2 (Or.inr (Or.inr hleft))
          omega
      have hspent : final = budget := by
        rcases hfinal.1 with hhalts | hspent | hleft
        · exact absurd hhalts not_haltsAt_never
        · exact hspent
        · exact absurd hleft (hinside final)
      subst hspent
      rw [hrun, hnever, Run.summary, stopAt, if_neg not_haltsAt_never, if_pos rfl,
        state_iterate_of_le hsettled (Nat.le_of_succ_le hbudget),
        state_iterate_of_le hsettled (Nat.le_succ count)]

/-- A step leaves the state as it is exactly when it is a jump that leaves the program counter, and
then so do all later steps. A run that halts there halts after the first such step. It comes to the
same state as the run that never halts, and only where it halts do the two differ: the other one
then spends its budget. -/
theorem run_selfLoop_same_outcome (machine : Machine) (budget : Nat) :
    (machine.step.state = machine.state ↔
        machine.next.isJump = true ∧ machine.step.state.pc = machine.state.pc) ∧
      (machine.step.state = machine.state →
        ∀ count, (step^[count] machine).state = machine.state) ∧
      (∀ count,
        (machine.run ⟨budget, .selfLoop⟩).summary =
            ⟨(step^[count] machine).state, count + 1, .halted⟩ ↔
          count < budget ∧
            IsLeast {count | (step^[count + 1] machine).state = (step^[count] machine).state}
              count ∧
            ∀ earlier ≤ count, (step^[earlier] machine).state.pc ≤ 15) ∧
      (machine.run ⟨budget, .selfLoop⟩).machine.state =
        (machine.run ⟨budget, .never⟩).machine.state ∧
      ((machine.run ⟨budget, .selfLoop⟩).stop ≠ .halted →
        (machine.run ⟨budget, .selfLoop⟩).summary = (machine.run ⟨budget, .never⟩).summary) ∧
      ((machine.run ⟨budget, .selfLoop⟩).stop = .halted →
        (machine.run ⟨budget, .never⟩).stop = .budgetSpent ∧
          (machine.run ⟨budget, .never⟩).cycles = budget) := by
  refine ⟨settled_iff, Settled.state_iterate, fun count => ?_, ?_, ?_, ?_⟩
  · simp only [Function.iterate_succ_apply']
    exact summary_run_selfLoop_eq_iff
  · by_cases hstop : (machine.run ⟨budget, .selfLoop⟩).stop = .halted
    · exact (congrArg Summary.state (summary_run_never_of_halted hstop)).symm
    · exact (congrArg Summary.state (summary_run_never_of_not_halted hstop)).symm
  · intro hstop
    exact (summary_run_never_of_not_halted hstop).symm
  · intro hstop
    have hsummary := summary_run_never_of_halted hstop
    exact ⟨congrArg Summary.stop hsummary, congrArg Summary.cycles hsummary⟩

/-- The jump at address `1` is the second instruction and the first that leaves the state, so a
budget of one instruction is spent before it. -/
theorem run_selfLoop_same_outcome_second :
    let machine := start ⟨#v[0xA6, 0x79, 0, 0, 0, 0, 0, 0, 0, 0, 0, 0, 0, 0, 0, 0]⟩
    machine.step.step.state = machine.step.state ∧
      (∀ count, (step^[count] machine.step).state = machine.step.state) ∧
      (machine.run ⟨1, .selfLoop⟩).stop ≠ .halted ∧
      (machine.run ⟨1, .selfLoop⟩).summary = (machine.run ⟨1, .never⟩).summary ∧
      (machine.run ⟨50, .selfLoop⟩).stop = .halted ∧
      (machine.run ⟨50, .never⟩).stop = .budgetSpent ∧
      (machine.run ⟨50, .never⟩).cycles = 50 := by
  intro machine
  have hsettled : machine.step.step.state = machine.step.state := by decide
  have hspent : (machine.run ⟨1, .selfLoop⟩).stop ≠ .halted := by decide
  have hhalted : (machine.run ⟨50, .selfLoop⟩).stop = .halted := by decide
  obtain ⟨_, hstays, _⟩ := run_selfLoop_same_outcome machine.step 50
  obtain ⟨_, _, _, _, hsame, _⟩ := run_selfLoop_same_outcome machine 1
  obtain ⟨_, _, _, _, _, hnever⟩ := run_selfLoop_same_outcome machine 50
  exact ⟨hsettled, hstays hsettled, hspent, hsame hspent, hhalted, hnever hhalted⟩

end Machine

end EightBit
