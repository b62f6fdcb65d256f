import EightBit.Machine.Run
import Mathlib.Logic.Function.Iterate
import Mathlib.Order.Bounds.Basic

/-!
# Where a run ends

A run ends at the first point of the machine's way at which one of its three tests says so.
`Machine.EndsAt` gives the tests at every point without following a run, and `Machine.stopAt` which
of them counts where several hold.
-/

namespace EightBit.Machine

variable {α : Type}

/-! ## The tests -/

/-- The halt condition holds after `count` instructions. -/
def HaltsAt : (halt : Halt) → (machine : Machine) → (count : Nat) → Prop
  | _, _, 0 => False
  | .never, _, _ + 1 => False
  | .atAddress pc least, machine, count + 1 =>
    (step^[count + 1] machine).state.pc = pc ∧ least < count + 1
  | .selfLoop, machine, count + 1 =>
    (step^[count] machine).next.isJump = true ∧
      (step^[count + 1] machine).state.pc = (step^[count] machine).state.pc

instance : (halt : Halt) → (machine : Machine) → (count : Nat) →
    Decidable (HaltsAt halt machine count)
  | _, _, 0 => isFalse id
  | .never, _, _ + 1 => isFalse id
  | .atAddress .., _, _ + 1 => inferInstanceAs (Decidable (_ ∧ _))
  | .selfLoop, _, _ + 1 => inferInstanceAs (Decidable (_ ∧ _))

/-- One of the tests ends a run after `count` instructions. -/
def EndsAt (options : RunOptions) (machine : Machine) (count : Nat) : Prop :=
  HaltsAt options.halt machine count ∨ count = options.budget ∨
    15 < (step^[count] machine).state.pc

/-- The reason for which a run ends that ends after `count` instructions. -/
def stopAt (options : RunOptions) (machine : Machine) (count : Nat) : Stop :=
  if HaltsAt options.halt machine count then .halted
  else if count = options.budget then .budgetSpent
  else .outOfRange

/-- The machine before each of the first `count` instructions. -/
def trail (machine : Machine) (count : Nat) : List Machine :=
  (List.range count).map (step^[·] machine)

theorem trail_succ (machine : Machine) (count : Nat) :
    trail machine (count + 1) = trail machine count ++ [step^[count] machine] := by
  rw [trail, List.range_succ, List.map_append, List.map_singleton, trail]

theorem mem_trail_iff {machine passed : Machine} {count : Nat} :
    passed ∈ trail machine count ↔ ∃ earlier < count, step^[earlier] machine = passed := by
  simp only [trail, List.mem_map, List.mem_range]

theorem rom_iterate (machine : Machine) (count : Nat) :
    (step^[count] machine).rom = machine.rom := by
  induction count with
  | zero => rfl
  | succ count ih => rw [Function.iterate_succ_apply', rom_step, ih]

theorem inRange_iff {machine : Machine} : machine.inRange = true ↔ ¬15 < machine.state.pc := by
  rw [inRange, decide_eq_true_iff, UInt8.lt_iff_toNat_lt, UInt8.lt_iff_toNat_lt]
  change machine.state.pc.toNat < 16 ↔ ¬15 < machine.state.pc.toNat
  omega

/-- Inside the memory the next address does not wrap around. -/
theorem toNat_pc_add_one {pc : UInt8} (hinside : pc ≤ 15) : (pc + 1).toNat = pc.toNat + 1 := by
  have hrange : pc.toNat ≤ 15 := hinside
  rw [UInt8.toNat_add]
  exact Nat.mod_eq_of_lt (show pc.toNat + 1 < 2 ^ 8 by omega)

theorem holds_iff_haltsAt {halt : Halt} {machine : Machine} {count : Nat} :
    halt.holds (step^[count] machine).next (step^[count] machine).state.pc
        (step^[count] machine).step.state.pc (count + 1) = true ↔
      HaltsAt halt machine (count + 1) := by
  rw [← Function.iterate_succ_apply' step]
  cases halt with
  | never => exact iff_of_false Bool.false_ne_true id
  | atAddress pc least => rw [Halt.holds, Bool.and_eq_true, beq_iff_eq, decide_eq_true_iff, HaltsAt]
  | selfLoop => rw [Halt.holds, Bool.and_eq_true, beq_iff_eq, HaltsAt]

/-! ## The run -/

/-- A run goes on after `count` instructions when the halt condition has not held, the budget is not
spent and the machine is in range. -/
theorem not_endsAt {options : RunOptions} {machine : Machine} {count : Nat}
    (hhalt : ¬HaltsAt options.halt machine count) (hspare : count ≠ options.budget)
    (hrange : (step^[count] machine).inRange = true) : ¬EndsAt options machine count := by
  rintro (hhalts | hspent | hleft)
  · exact hhalt hhalts
  · exact hspare hspent
  · exact inRange_iff.mp hrange hleft

theorem isLeast_endsAt {options : RunOptions} {machine : Machine} {last : Nat}
    (hend : EndsAt options machine last)
    (hgoing : ∀ earlier < last, ¬EndsAt options machine earlier) :
    IsLeast {count | EndsAt options machine count} last := by
  constructor
  · exact hend
  · intro other hother
    apply Nat.le_of_not_lt
    intro hearlier
    exact hgoing other hearlier hother

/-- Before the end of a run the program counter is an address. -/
theorem pc_le_of_lt_last {options : RunOptions} {machine : Machine} {last count : Nat}
    (hlast : IsLeast {count | EndsAt options machine count} last) (hcount : count < last) :
    (step^[count] machine).state.pc ≤ 15 := by
  apply UInt8.not_lt.mp
  intro hleft
  have hle := hlast.2 (Or.inr (Or.inr hleft))
  omega

theorem foldl_trail_succ (visit : α → Machine → α) (start : α) (machine : Machine) (count : Nat) :
    (trail machine (count + 1)).foldl visit start =
      visit ((trail machine count).foldl visit start) (step^[count] machine) := by
  rw [trail_succ, List.foldl_append, List.foldl_cons, List.foldl_nil]

/-- A run that has come as far as `count` instructions without an end goes on to the first end. -/
theorem runFrom_ends (options : RunOptions) (visit : α → Machine → α) (start : α)
    (machine : Machine) (budget count : Nat) (hbudget : count + budget = options.budget)
    (hgoing : ∀ earlier < count, ¬EndsAt options machine earlier)
    (hhalt : ¬HaltsAt options.halt machine count) :
    ∃ last, IsLeast {count | EndsAt options machine count} last ∧ last ≤ options.budget ∧
      runFrom options.halt visit budget count ((trail machine count).foldl visit start)
          (step^[count] machine) =
        ⟨step^[last] machine, last, stopAt options machine last,
          (trail machine last).foldl visit start⟩ := by
  -- The induction is on the budget that is left. No end up to `count` is what carries it.
  induction budget generalizing count with
  | zero =>
      have hspent : count = options.budget := hbudget
      have hend : EndsAt options machine count := Or.inr (Or.inl hspent)
      refine ⟨count, isLeast_endsAt hend hgoing, Nat.le_of_eq hspent, ?_⟩
      rw [runFrom, stopAt, if_neg hhalt, if_pos hspent]
  | succ budget ih =>
      have hspare : count ≠ options.budget := by omega
      rw [runFrom]
      by_cases hrange : (step^[count] machine).inRange = true
      · have hgoingOn : ∀ earlier < count + 1, ¬EndsAt options machine earlier := by
          intro earlier hearlier
          rcases Nat.lt_succ_iff_lt_or_eq.mp hearlier with hearlier | rfl
          · exact hgoing earlier hearlier
          · exact not_endsAt hhalt hspare hrange
        rw [if_pos hrange, ← foldl_trail_succ visit]
        dsimp only
        split
        · rename_i hholds
          have hhalts := holds_iff_haltsAt.mp hholds
          refine ⟨count + 1, isLeast_endsAt (Or.inl hhalts) hgoingOn, by omega, ?_⟩
          rw [stopAt, if_pos hhalts, Function.iterate_succ_apply']
        · rename_i hholds
          rw [← Function.iterate_succ_apply' step]
          apply ih (count + 1) (by omega) hgoingOn
          intro hhalts
          exact hholds (holds_iff_haltsAt.mpr hhalts)
      · have hleft : 15 < (step^[count] machine).state.pc := by
          by_contra hinside
          exact hrange (inRange_iff.mpr hinside)
        have hend : EndsAt options machine count := Or.inr (Or.inr hleft)
        refine ⟨count, isLeast_endsAt hend hgoing, by omega, ?_⟩
        rw [if_neg hrange, stopAt, if_neg hhalt, if_neg hspare]

/-- A run ends at its first end, for the reason that counts there. -/
theorem run_ends (options : RunOptions) (machine : Machine) :
    ∃ last, IsLeast {count | EndsAt options machine count} last ∧ last ≤ options.budget ∧
      machine.run options = ⟨step^[last] machine, last, stopAt options machine last, ()⟩ := by
  apply runFrom_ends options (fun _ _ => ()) () machine options.budget 0 (Nat.zero_add _)
  · intro earlier hearlier
    exact absurd hearlier (Nat.not_lt_zero earlier)
  · exact id

/-- A run leaves the machine as many steps behind as it has executed instructions. -/
theorem machine_run (options : RunOptions) (machine : Machine) :
    (machine.run options).machine = step^[(machine.run options).cycles] machine := by
  obtain ⟨last, _, _, hrun⟩ := run_ends options machine
  rw [hrun]

theorem stopAt_eq_halted_iff {options : RunOptions} {machine : Machine} {count : Nat} :
    stopAt options machine count = .halted ↔ HaltsAt options.halt machine count := by
  rw [stopAt]
  split
  · rename_i hhalts
    exact iff_of_true rfl hhalts
  · rename_i hgoing
    split
    · exact iff_of_false nofun hgoing
    · exact iff_of_false nofun hgoing

/-- A run that has the budget for it and does not halt ends where the program counter first leaves
the memory. -/
theorem run_of_leaves {options : RunOptions} {machine : Machine} {count : Nat}
    (hbudget : count < options.budget)
    (hhalt : ∀ earlier ≤ count, ¬HaltsAt options.halt machine earlier)
    (hinside : ∀ earlier < count, (step^[earlier] machine).state.pc ≤ 15)
    (hleft : 15 < (step^[count] machine).state.pc) :
    machine.run options = ⟨step^[count] machine, count, .outOfRange, ()⟩ := by
  have hend : IsLeast {count | EndsAt options machine count} count := by
    apply isLeast_endsAt (Or.inr (Or.inr hleft))
    intro earlier hearlier
    have hrange : (step^[earlier] machine).inRange = true :=
      inRange_iff.mpr (UInt8.not_lt.mpr (hinside earlier hearlier))
    exact not_endsAt (hhalt earlier (Nat.le_of_lt hearlier)) (by omega) hrange
  obtain ⟨last, hlast, _, hrun⟩ := run_ends options machine
  obtain rfl := hlast.unique hend
  rw [hrun, stopAt, if_neg (hhalt last (Nat.le_refl last)), if_neg (by omega)]

/-! ## A counter of 32 bits -/

theorem toNat_add_one_of_lt {cycles limit : UInt32} (hlt : cycles < limit) :
    (cycles + 1).toNat = cycles.toNat + 1 := by
  have hlimit := limit.toNat_lt
  rw [UInt32.lt_iff_toNat_lt] at hlt
  rw [UInt32.toNat_add]
  exact Nat.mod_eq_of_lt (show cycles.toNat + 1 < 2 ^ 32 by omega)

/-- The rest of a run that counts its instructions in 32 bits and compares the counter with its
limit. -/
def countedFrom (limit : UInt32) (halt : Halt) (visit : α → Machine → α) (cycles : UInt32)
    (gathered : α) (machine : Machine) : Run α :=
  if cycles < limit then
    if machine.inRange then
      let gathered := visit gathered machine
      let after := machine.step
      if halt.holds machine.next machine.state.pc after.state.pc (cycles + 1).toNat then
        ⟨after, (cycles + 1).toNat, .halted, gathered⟩
      else countedFrom limit halt visit (cycles + 1) gathered after
    else ⟨machine, cycles.toNat, .outOfRange, gathered⟩
  else ⟨machine, cycles.toNat, .budgetSpent, gathered⟩
termination_by limit.toNat - cycles.toNat
decreasing_by
  rename_i hlt _ _
  rw [toNat_add_one_of_lt hlt]
  rw [UInt32.lt_iff_toNat_lt] at hlt
  omega

/-- The counter does not overflow: a run that counts in 32 bits is the run with its limit as
budget. -/
theorem countedFrom_eq_runFrom (limit : UInt32) (halt : Halt) (visit : α → Machine → α)
    (budget : Nat) (cycles : UInt32) (hbudget : cycles.toNat + budget = limit.toNat) (gathered : α)
    (machine : Machine) :
    countedFrom limit halt visit cycles gathered machine =
      runFrom halt visit budget cycles.toNat gathered machine := by
  induction budget generalizing cycles gathered machine with
  | zero =>
      have hspent : ¬cycles < limit := by
        rw [UInt32.lt_iff_toNat_lt]
        omega
      rw [countedFrom, if_neg hspent, runFrom]
  | succ budget ih =>
      have hlt : cycles < limit := by
        rw [UInt32.lt_iff_toNat_lt]
        omega
      have hnext := toNat_add_one_of_lt hlt
      rw [countedFrom, if_pos hlt, runFrom, hnext]
      dsimp only
      rw [ih (cycles + 1) (by omega), hnext]

/-- A run ends after the least number of instructions after which one of the tests holds. A halt
counts before a spent budget, and that before an address out of range. The machine is left as it is
then, `visit` has been shown the machine before each instruction, in order, and the count never gets
above the limit. -/
theorem run_ends_first (limit : UInt32) (halt : Halt) (visit : α → Machine → α) (start : α)
    (machine : Machine) :
    ∃ last, IsLeast {count | EndsAt ⟨limit.toNat, halt⟩ machine count} last ∧
      machine.runWith ⟨limit.toNat, halt⟩ visit start =
        ⟨step^[last] machine, last, stopAt ⟨limit.toNat, halt⟩ machine last,
          (trail machine last).foldl visit start⟩ ∧
      machine.run ⟨limit.toNat, halt⟩ =
        ⟨step^[last] machine, last, stopAt ⟨limit.toNat, halt⟩ machine last, ()⟩ ∧
      last ≤ limit.toNat ∧
      countedFrom limit halt visit 0 start machine =
        machine.runWith ⟨limit.toNat, halt⟩ visit start := by
  have hnone : ∀ earlier < 0, ¬EndsAt ⟨limit.toNat, halt⟩ machine earlier := by
    intro earlier hearlier
    exact absurd hearlier (Nat.not_lt_zero earlier)
  obtain ⟨last, hlast, hle, hrun⟩ := runFrom_ends ⟨limit.toNat, halt⟩ visit start machine
    limit.toNat 0 (Nat.zero_add _) hnone id
  obtain ⟨same, hsame, _, hplain⟩ := runFrom_ends ⟨limit.toNat, halt⟩
    (fun _ _ => ()) () machine limit.toNat 0 (Nat.zero_add _) hnone id
  obtain rfl := hlast.unique hsame
  refine ⟨last, hlast, hrun, hplain, hle, ?_⟩
  exact countedFrom_eq_runFrom limit halt visit limit.toNat 0 (Nat.zero_add _) start machine

end EightBit.Machine
