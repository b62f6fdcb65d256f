import EightBit.Machine.Session
import EightBit.Proofs.Machine.Tracing
import Mathlib.Data.List.DropRight

/-!
# What the counter of a machine tells

Whatever is done to a machine, its memory stays as it was made, and its counter tells how many
instructions were executed since the last reset: one for each step and as many as each run reports.
A reset leaves nothing behind that a later answer could show.
-/

namespace EightBit

def Answer.summary? : Answer → Option Summary
  | .summary report => some report
  | .traced report _ => some report
  | .nothing | .instruction _ | .line _ => none

/-- Operations with their answers, in the order in which they were performed. -/
abbrev History := List (Operation × Answer)

namespace History

/-- What was done since the last reset, or since the beginning if there was none. -/
def sinceReset (history : History) : History :=
  history.rtakeWhile (·.1 ≠ .reset)

/-- The instructions that were executed: one for each step, and as many as each run reports. -/
def executed (history : History) : Nat :=
  history.countP (·.1 = .step) + ((history.filterMap (·.2.summary?)).map (·.cycles)).sum

theorem sinceReset_concat_reset (history : History) (answer : Answer) :
    sinceReset (history ++ [(.reset, answer)]) = [] :=
  List.rtakeWhile_concat_neg _ _ _ (by simp)

theorem sinceReset_concat {operation : Operation} (hkept : operation ≠ .reset)
    (history : History) (answer : Answer) :
    sinceReset (history ++ [(operation, answer)]) =
      history.sinceReset ++ [(operation, answer)] :=
  List.rtakeWhile_concat_pos _ _ _ (by simpa using hkept)

theorem executed_append (before after : History) :
    executed (before ++ after) = before.executed + after.executed := by
  simp only [executed, List.countP_append, List.filterMap_append, List.map_append, List.sum_append]
  omega

end History

namespace Machine

def history (machine : Machine) (operations : List Operation) : History :=
  operations.zip ((machine.session operations).map Prod.fst)

theorem history_cons (machine : Machine) (operation : Operation) (rest : List Operation) :
    machine.history (operation :: rest) =
      (operation, (machine.perform operation).1) ::
        (machine.perform operation).2.history rest := rfl

/-! ## One operation -/

/-- What an operation counts are the steps from the machine to the one that it leaves. -/
theorem cycles_perform {operation : Operation} (hkept : operation ≠ .reset) (machine : Machine) :
    (machine.perform operation).2.cycles = machine.cycles +
      UInt32.ofNat (History.executed [(operation, (machine.perform operation).1)]) := by
  cases operation with
  | step => rfl
  | run options =>
      have hexecuted : History.executed [(.run options, (machine.perform (.run options)).1)] =
          (machine.run options).cycles := Nat.zero_add _
      rw [hexecuted]
      change (machine.run options).machine.cycles =
        machine.cycles + UInt32.ofNat (machine.run options).cycles
      rw [machine_run, cycles_iterate]
  | tracedRun options =>
      have hexecuted : History.executed
          [(.tracedRun options, (machine.perform (.tracedRun options)).1)] =
            (machine.tracedRun options).cycles := Nat.zero_add _
      rw [hexecuted]
      change (machine.tracedRun options).machine.cycles =
        machine.cycles + UInt32.ofNat (machine.tracedRun options).cycles
      rw [tracedRun, runWith_eq, machine_run, cycles_iterate]
  | reset => exact absurd rfl hkept
  | peek | trace | setRegister register value | setPc pc | setZero zero =>
      exact (UInt32.add_zero machine.cycles).symm

theorem rom_perform (machine : Machine) (operation : Operation) :
    (machine.perform operation).2.rom = machine.rom := by
  cases operation with
  | run options =>
      change (machine.run options).machine.rom = machine.rom
      rw [machine_run, rom_iterate]
  | tracedRun options =>
      change (machine.tracedRun options).machine.rom = machine.rom
      rw [tracedRun, runWith_eq, machine_run, rom_iterate]
  | step | peek | trace | reset | setRegister register value | setPc pc | setZero zero => rfl

/-! ## Any history -/

/-- The machine has the memory that it was made of, and its counter is that of its history. -/
structure Accounted (rom : Rom) (history : History) (machine : Machine) : Prop where
  rom_eq : machine.rom = rom
  cycles_eq : machine.cycles = UInt32.ofNat history.sinceReset.executed

variable {rom : Rom} {history : History} {machine : Machine}

theorem accounted_start (rom : Rom) : Accounted rom [] (start rom) := ⟨rfl, rfl⟩

theorem Accounted.perform (haccounted : Accounted rom history machine) (operation : Operation) :
    Accounted rom (history ++ [(operation, (machine.perform operation).1)])
      (machine.perform operation).2 where
  rom_eq := (machine.rom_perform operation).trans haccounted.rom_eq
  cycles_eq := by
    by_cases hreset : operation = .reset
    · subst hreset
      rw [History.sinceReset_concat_reset]
      rfl
    · rw [cycles_perform hreset, haccounted.cycles_eq, History.sinceReset_concat hreset,
        History.executed_append, UInt32.ofNat_add]

/-- Every machine of a session is accounted for by the history up to it. -/
theorem Accounted.session (haccounted : Accounted rom history machine)
    {operations : List Operation} {index : Nat} {answer : Answer} {after : Machine}
    (hafter : (machine.session operations)[index]? = some (answer, after)) :
    Accounted rom (history ++ (machine.history operations).take (index + 1)) after := by
  -- What was done before the session is general: each operation moves over to it.
  induction operations generalizing history machine index with
  | nil => exact absurd hafter (by simp [Machine.session])
  | cons operation rest ih =>
      have hnext := haccounted.perform operation
      rw [history_cons, List.take_succ_cons]
      cases index with
      | zero =>
          obtain ⟨rfl, rfl⟩ := Prod.mk.inj (Option.some.inj hafter)
          exact hnext
      | succ index =>
          have hrest := ih hnext hafter
          rwa [List.append_assoc] at hrest

/-- A session goes on after a reset as it does from the start. -/
theorem session_append_reset (hrom : machine.rom = rom) (operations further : List Operation) :
    machine.session (operations ++ .reset :: further) =
      machine.session operations ++ (.nothing, start rom) :: (start rom).session further := by
  induction operations generalizing machine with
  | nil =>
      subst hrom
      rfl
  | cons operation rest ih =>
      rw [List.cons_append, Machine.session, Machine.session, List.cons_append,
        ih ((machine.rom_perform operation).trans hrom)]

/-- At every point of a session with a new machine the memory is the one that the machine was made
of, and the counter tells of all instructions since the last reset, as long as 32 bits hold their
number. What follows a reset is answered as by a new machine. -/
theorem session_accounts (rom : Rom) (operations : List Operation) :
    (∀ index answer after, ((start rom).session operations)[index]? = some (answer, after) →
        after.rom = rom ∧
          let recent := History.sinceReset (((start rom).history operations).take (index + 1))
          (recent.executed < 2 ^ 32 → after.cycles.toNat = recent.executed)) ∧
      ∀ further, (start rom).session (operations ++ .reset :: further) =
        (start rom).session operations ++ (.nothing, start rom) :: (start rom).session further := by
  constructor
  · intro index answer after hafter
    have haccounted := (accounted_start rom).session hafter
    refine ⟨haccounted.rom_eq, fun hfew => ?_⟩
    rw [haccounted.cycles_eq]
    exact UInt32.toNat_ofNat_of_lt' hfew
  · exact session_append_reset rfl operations

/-- A run and a step are counted, and the step before the reset no more. -/
theorem session_accounts_reset :
    let operations : List Operation := [.step, .reset, .run ⟨2, .never⟩, .step]
    let recent := History.sinceReset (((start Rom.empty).history operations).take 4)
    recent.executed < 2 ^ 32 ∧ recent.executed = 3 ∧ ∃ answer after,
      ((start Rom.empty).session operations)[3]? = some (answer, after) ∧
        after.cycles.toNat = recent.executed := by
  intro operations recent
  have hfew : recent.executed < 2 ^ 32 := by decide
  have hcounted := (session_accounts Rom.empty operations).1 3 _ _ rfl
  exact ⟨hfew, by decide, _, _, rfl, hcounted.2 hfew⟩

end Machine

end EightBit
