import EightBit.Proofs.Machine.Stopping
import EightBit.Proofs.Machine.TraceLine

/-!
# Runs that are traced

A traced run is the run itself, and its lines show the machine before each instruction.
-/

namespace EightBit

namespace Machine

variable {α : Type}

/-- The counter of the machine counts its steps, modulo what 32 bits hold. -/
theorem cycles_iterate (machine : Machine) (count : Nat) :
    (step^[count] machine).cycles = machine.cycles + UInt32.ofNat count := by
  induction count with
  | zero => exact (UInt32.add_zero machine.cycles).symm
  | succ count ih =>
      rw [Function.iterate_succ_apply', cycles_step, ih, UInt32.ofNat_add, UInt32.add_assoc]
      rfl

/-- The counter does not come round as long as 32 bits hold the count. -/
theorem toNat_cycles_iterate {machine : Machine} {count : Nat}
    (hfew : machine.cycles.toNat + count < 2 ^ 32) :
    (step^[count] machine).cycles.toNat = machine.cycles.toNat + count := by
  have hcount : (UInt32.ofNat count).toNat = count :=
    UInt32.toNat_ofNat_of_lt' (show count < 2 ^ 32 by omega)
  rw [cycles_iterate, UInt32.toNat_add, hcount]
  exact Nat.mod_eq_of_lt hfew

/-- Watching a run leaves it as it is, and `visit` is shown the machine before each instruction. -/
theorem runWith_eq (options : RunOptions) (visit : α → Machine → α) (start : α)
    (machine : Machine) :
    machine.runWith options visit start =
      ⟨(machine.run options).machine, (machine.run options).cycles, (machine.run options).stop,
        (trail machine (machine.run options).cycles).foldl visit start⟩ := by
  obtain ⟨last, hlast, _, hrun⟩ := run_ends options machine
  obtain ⟨same, hsame, _, hwatched⟩ := runFrom_ends options visit start machine options.budget 0
    (Nat.zero_add _) (fun _ hearlier => absurd hearlier (Nat.not_lt_zero _)) id
  obtain rfl := hlast.unique hsame
  rw [hrun]
  exact hwatched

theorem gathered_tracedRun (options : RunOptions) (machine : Machine) :
    (machine.tracedRun options).gathered =
      ((trail machine (machine.run options).cycles).map trace).toArray := by
  rw [tracedRun, runWith_eq, List.foldl_push_eq_append, Array.empty_append]

/-- A line of a traced run shows the machine before its instruction. -/
theorem ofLine?_tracedRun {options : RunOptions} {machine : Machine} {index : Nat}
    (hindex : index < (machine.run options).cycles) :
    (machine.tracedRun options).gathered[index]?.bind Snapshot.ofLine? =
      some (step^[index] machine).snapshot := by
  rw [gathered_tracedRun, List.getElem?_toArray, List.getElem?_map, trail, List.getElem?_map,
    List.getElem?_range hindex, Option.map_some, Option.map_some, Option.bind_some]
  exact ofLine?_trace (step^[index] machine)

/-- Tracing shows a run and leaves it as it is. The line with an index shows the machine after as
many instructions, and the instruction that is executed there. -/
structure Observed (options : RunOptions) (machine : Machine) : Prop where
  summary : (machine.tracedRun options).summary = (machine.run options).summary
  after : (machine.tracedRun options).machine = (machine.run options).machine
  last : (machine.run options).machine = step^[(machine.run options).cycles] machine
  size : (machine.tracedRun options).gathered.size = (machine.run options).cycles
  executed : ∀ index, (step^[index + 1] machine).state = (step^[index] machine).state.execute
    (Instruction.decode (machine.rom.read (step^[index] machine).state.pc))
  line : ∀ index < (machine.run options).cycles, ∀ state, state = (step^[index] machine).state →
    (machine.tracedRun options).gathered[index]?.bind Snapshot.ofLine? = some
      { pc := state.pc.toNat
        word := (machine.rom.read state.pc).toNat
        bits := (machine.rom.read state.pc).toNat
        text := (Instruction.decode (machine.rom.read state.pc)).text
        registers := state.registers.toList.map UInt8.toNat
        flag := state.zero.toNat
        cycles := machine.cycles.toNat + index }

theorem word_iterate (machine : Machine) (count : Nat) :
    (step^[count] machine).word = machine.rom.read (step^[count] machine).state.pc := by
  rw [word, rom_iterate]

theorem observed {options : RunOptions} {machine : Machine}
    (hfew : machine.cycles.toNat + (machine.run options).cycles < 2 ^ 32) :
    machine.Observed options where
  summary := by
    rw [tracedRun, runWith_eq]
    rfl
  after := by rw [tracedRun, runWith_eq]
  last := machine_run options machine
  size := by
    rw [gathered_tracedRun, List.size_toArray, List.length_map, trail, List.length_map,
      List.length_range]
  executed index := by
    rw [Function.iterate_succ_apply', state_step, next, word_iterate]
  line index hindex state hstate := by
    subst hstate
    have hcycles := toNat_cycles_iterate (show machine.cycles.toNat + index < 2 ^ 32 by omega)
    rw [ofLine?_tracedRun hindex, snapshot, next, word_iterate, hcycles]

end Machine

end EightBit
