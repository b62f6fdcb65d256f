import EightBit.Proofs.Isa.Codec
import EightBit.Proofs.Machine.Tracing

/-!
# Where the program counter goes

The target of a jump has three bits, so an address above `7` is reached from the one before it and
from nowhere else. A run that leaves the memory has therefore come through the last addresses one
after the other.
-/

namespace EightBit.Machine

/-- The next instruction is a jump to the target, and it is taken. -/
def JumpsTo (machine : Machine) (target : UInt8) : Prop :=
  ∃ condition, machine.next = .jump condition target ∧ condition.holds machine.state.zero = true

/-- The next instruction is a jump that is taken. -/
def Jumps (machine : Machine) : Prop :=
  ∃ target, machine.JumpsTo target

/-- The machines that a run is at before each of its instructions. -/
def visited (options : RunOptions) (machine : Machine) : List Machine :=
  (machine.runWith options Array.push #[]).gathered.toList

theorem visited_eq_trail (options : RunOptions) (machine : Machine) :
    machine.visited options = trail machine (machine.run options).cycles := by
  rw [visited, runWith_eq]
  simp

theorem length_visited (options : RunOptions) (machine : Machine) :
    (machine.visited options).length = (machine.run options).cycles := by
  simp [visited_eq_trail, trail]

theorem trail_succ_eq_cons (machine : Machine) (count : Nat) :
    trail machine (count + 1) = machine :: trail machine.step count := by
  simp [trail, List.range_succ_eq_map, Function.comp_def]

theorem trail_add (machine : Machine) (first count : Nat) :
    trail machine (first + count) = trail machine first ++ trail (step^[first] machine) count := by
  induction first generalizing machine with
  | zero => simp [trail]
  | succ first ih =>
      rw [Nat.add_right_comm, trail_succ_eq_cons, trail_succ_eq_cons, ih machine.step]
      rfl

/-! ## One step -/

theorem le_of_jumpsTo {machine : Machine} {target : UInt8} (hjump : machine.JumpsTo target) :
    target ≤ 7 := by
  obtain ⟨condition, hnext, _⟩ := hjump
  have hvalid := Instruction.decode_valid machine.word
  rw [← next, hnext] at hvalid
  exact Nat.le_of_lt_succ hvalid

/-- A step goes to the target of a jump or to the next address. -/
theorem pc_step (machine : Machine) :
    (∃ target ≤ 7, machine.JumpsTo target ∧ machine.step.state.pc = target) ∨
      ¬machine.Jumps ∧ machine.step.state.pc = machine.state.pc + 1 := by
  cases hnext : machine.next with
  | operation opcode dest source =>
      right
      constructor
      · rintro ⟨target, condition, hjump, _⟩
        simp [hnext] at hjump
      · simp [hnext, State.execute, State.operate]
  | jump condition target =>
      by_cases hholds : condition.holds machine.state.zero = true
      · have hjump : machine.JumpsTo target := ⟨condition, hnext, hholds⟩
        refine Or.inl ⟨target, le_of_jumpsTo hjump, hjump, ?_⟩
        simp [hnext, State.execute, State.jump, hholds]
      · right
        constructor
        · rintro ⟨_, _, hjump, htaken⟩
          cases hnext.symm.trans hjump
          exact hholds htaken
        · simp [hnext, State.execute, State.jump, hholds]

theorem toNat_pc_step_le {machine : Machine} (hrange : machine.state.pc.toNat ≤ 15) :
    machine.step.state.pc.toNat ≤ 16 := by
  rcases pc_step machine with ⟨target, htarget, _, hpc⟩ | ⟨_, hpc⟩
  · rw [hpc]
    have hle : target.toNat ≤ 7 := htarget
    omega
  · rw [hpc, toNat_pc_add_one hrange]
    omega

/-- An address above `7` is reached from the one before it. -/
theorem pc_before_step {machine : Machine} {address : Nat} (hhigh : 7 ≤ address)
    (hafter : machine.step.state.pc.toNat = address + 1) :
    machine.state.pc.toNat = address ∧ ¬machine.Jumps := by
  rcases pc_step machine with ⟨target, htarget, _, hpc⟩ | ⟨hjump, hpc⟩
  · have hle : target.toNat ≤ 7 := htarget
    rw [hpc] at hafter
    omega
  · refine ⟨?_, hjump⟩
    rw [hpc, UInt8.toNat_add] at hafter
    change (machine.state.pc.toNat + 1) % 256 = address + 1 at hafter
    have hlt := machine.state.pc.toNat_lt
    omega

/-! ## Many steps -/

/-- The way to an address above `7` goes through the addresses before it, as far as they are above
`6`. -/
theorem pc_before_iterate {machine : Machine} {count address : Nat} (hhigh : 7 ≤ address)
    (hafter : (step^[count] machine).state.pc.toNat = address + count) :
    machine.state.pc.toNat = address ∧
      (trail machine count).map (·.state.pc.toNat) = List.range' address count ∧
      ∀ passed ∈ trail machine count, ¬passed.Jumps := by
  induction count generalizing machine address with
  | zero => exact ⟨hafter, rfl, List.forall_mem_nil _⟩
  | succ count ih =>
      have hrest : (step^[count] machine.step).state.pc.toNat = address + 1 + count := by
        rw [← Function.iterate_succ_apply, hafter]
        omega
      obtain ⟨hnext, haddresses, hjumps⟩ := ih (Nat.le_succ_of_le hhigh) hrest
      obtain ⟨hpc, hjump⟩ := pc_before_step hhigh hnext
      refine ⟨hpc, ?_, ?_⟩
      · rw [trail_succ_eq_cons, List.map_cons, haddresses, hpc, List.range'_succ]
      · rw [trail_succ_eq_cons, List.forall_mem_cons]
        exact ⟨hjump, hjumps⟩

/-! ## Runs -/

/-- At all points of a run the program counter is an address, or the number behind the last one. -/
theorem toNat_pc_le_of_isLeast {options : RunOptions} {machine : Machine} {last : Nat}
    (hstart : machine.state.pc.toNat ≤ 15)
    (hlast : IsLeast {count | EndsAt options machine count} last) {count : Nat}
    (hcount : count ≤ last) : (step^[count] machine).state.pc.toNat ≤ 16 := by
  cases count with
  | zero => exact Nat.le_succ_of_le hstart
  | succ count =>
      rw [Function.iterate_succ_apply']
      exact toNat_pc_step_le (pc_le_of_lt_last hlast hcount)

theorem lt_of_stopAt_eq_outOfRange {options : RunOptions} {machine : Machine} {count : Nat}
    (hend : EndsAt options machine count) (hstop : stopAt options machine count = .outOfRange) :
    15 < (step^[count] machine).state.pc := by
  unfold stopAt at hstop
  split at hstop
  · cases hstop
  · rename_i hhalt
    split at hstop
    · cases hstop
    · rename_i hspare
      exact (hend.resolve_left hhalt).resolve_left hspare

section Runs

variable {options : RunOptions} {machine : Machine}

/-- A run that leaves the memory from `count` addresses below its end, or more, has come through the
last `count` of them. -/
theorem exists_passed_of_outOfRange {count : Nat} (hpos : 0 < count) (hcount : count ≤ 9)
    (hstart : machine.state.pc.toNat + count ≤ 16)
    (hstop : (machine.run options).stop = .outOfRange) :
    (machine.run options).machine.state.pc = 16 ∧
      ∃ before passed, machine.visited options = before ++ passed ∧
        passed.map (·.state.pc.toNat) = List.range' (16 - count) count ∧
        ∀ machine ∈ passed, ¬machine.Jumps := by
  obtain ⟨last, hlast, _, hrun⟩ := run_ends options machine
  rw [visited_eq_trail]
  rw [hrun] at hstop ⊢
  have hle := toNat_pc_le_of_isLeast (by omega) hlast (Nat.le_refl last)
  have hlt : 15 < (step^[last] machine).state.pc.toNat := lt_of_stopAt_eq_outOfRange hlast.1 hstop
  have hpc : (step^[last] machine).state.pc.toNat = 16 := by omega
  refine ⟨UInt8.toNat_inj.mp hpc, ?_⟩
  -- A shorter run would have begun at an address that is too close to the end.
  have hlong : count ≤ last := by
    by_contra hshort
    have hway : (step^[last] machine).state.pc.toNat = 16 - last + last := by omega
    have hfirst := (pc_before_iterate (by omega) hway).1
    omega
  obtain ⟨first, rfl⟩ := Nat.exists_eq_add_of_le' hlong
  have hway : (step^[count] (step^[first] machine)).state.pc.toNat = 16 - count + count := by
    rw [← Function.iterate_add_apply, Nat.add_comm, hpc]
    omega
  obtain ⟨_, haddresses, hjumps⟩ := pc_before_iterate (by omega) hway
  exact ⟨_, _, trail_add machine first count, haddresses, hjumps⟩

theorem pc_le_of_reached (hstart : machine.state.pc ≤ 15) :
    ∀ reached ∈ machine.visited options ++ [(machine.run options).machine],
      reached.state.pc ≤ 16 := by
  obtain ⟨last, hlast, _, hrun⟩ := run_ends options machine
  rw [visited_eq_trail, hrun, ← trail_succ]
  intro reached hreached
  obtain ⟨count, hcount, rfl⟩ := mem_trail_iff.mp hreached
  exact toNat_pc_le_of_isLeast hstart hlast (Nat.le_of_lt_succ hcount)

end Runs

/-- From an address of the memory on, a run never gets further than just behind the last one, and
every step goes to the next address or jumps to one of the first eight. So when it leaves the
memory, it does so from the last address and not with a jump. If it has begun at one of the first
nine addresses, it has then executed the last eight instructions of the memory in their order. -/
theorem run_leaves_behind_last_address (options : RunOptions) {machine : Machine}
    (hstart : machine.state.pc ≤ 15) :
    (∀ reached ∈ machine.visited options ++ [(machine.run options).machine],
        reached.state.pc ≤ 16) ∧
      (∀ passed ∈ machine.visited options,
        (∃ target ≤ 7, passed.JumpsTo target ∧ passed.step.state.pc = target) ∨
          ¬passed.Jumps ∧ passed.step.state.pc = passed.state.pc + 1) ∧
      ((machine.run options).stop = .outOfRange →
        (machine.run options).machine.state.pc = 16 ∧
          ∃ before last, machine.visited options = before ++ [last] ∧
            last.state.pc.toNat = 15 ∧ ¬last.Jumps) ∧
      ((machine.run options).stop = .outOfRange → machine.state.pc ≤ 8 →
        8 ≤ (machine.run options).cycles ∧
          ∃ before passed, machine.visited options = before ++ passed ∧
            passed.map (·.state.pc.toNat) = [8, 9, 10, 11, 12, 13, 14, 15] ∧
            ∀ machine ∈ passed, ¬machine.Jumps) := by
  refine ⟨pc_le_of_reached hstart, fun passed _ => pc_step passed, ?_, ?_⟩
  · intro hstop
    have hfar : machine.state.pc.toNat + 1 ≤ 16 := Nat.succ_le_succ hstart
    obtain ⟨hpc, before, passed, hvisited, haddress, hjumps⟩ :=
      exists_passed_of_outOfRange (by decide) (by decide) hfar hstop
    obtain ⟨last, rfl, hlast⟩ := List.map_eq_singleton_iff.mp haddress
    exact ⟨hpc, before, last, hvisited, hlast, hjumps last (List.mem_singleton_self last)⟩
  · intro hstop hlow
    have hfar : machine.state.pc.toNat + 8 ≤ 16 := Nat.add_le_add_right hlow 8
    obtain ⟨_, before, passed, hvisited, haddresses, hjumps⟩ :=
      exists_passed_of_outOfRange (by decide) (by decide) hfar hstop
    have hlength := congrArg List.length haddresses
    refine ⟨?_, before, passed, hvisited, haddresses, hjumps⟩
    rw [← length_visited, hvisited, List.length_append]
    simp at hlength
    omega

/-- The jump at address `0` goes to address `5`, and from there on no instruction jumps. -/
theorem run_leaves_behind_last_address_jump :
    let machine := start ⟨.set (.replicate 16 nop) 0 0x7D⟩
    machine.state.pc ≤ 15 ∧ machine.state.pc ≤ 8 ∧ machine.JumpsTo 5 ∧
      (machine.run ⟨50, .never⟩).stop = .outOfRange ∧ 8 ≤ (machine.run ⟨50, .never⟩).cycles ∧
      ∃ before passed, machine.visited ⟨50, .never⟩ = before ++ passed ∧
        passed.map (·.state.pc.toNat) = [8, 9, 10, 11, 12, 13, 14, 15] ∧
        ∀ machine ∈ passed, ¬machine.Jumps := by
  intro machine
  have hstart : machine.state.pc ≤ 15 := by decide
  have hlow : machine.state.pc ≤ 8 := by decide
  have hjump : machine.JumpsTo 5 := ⟨.always, by decide, rfl⟩
  have hstop : (machine.run ⟨50, .never⟩).stop = .outOfRange := by decide
  exact ⟨hstart, hlow, hjump, hstop,
    (run_leaves_behind_last_address ⟨50, .never⟩ hstart).2.2.2 hstop hlow⟩

end EightBit.Machine
