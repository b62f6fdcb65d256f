import EightBit.Proofs.Machine.Addresses
import EightBit.Proofs.Machine.SelfLoop

/-!
# Programs without jumps back

When every jump leads to an address behind its own, each step moves the program counter on. So the
addresses that are left bound the steps, and a run comes to the end of the memory without being at
an address twice.
-/

namespace EightBit

/-- The instruction at the address jumps to no address but those behind it. -/
def Instruction.LeadsOn (address : Nat) : Instruction → Prop
  | .operation _ _ _ => True
  | .jump _ target => address < target.toNat

instance (address : Nat) : (instruction : Instruction) → Decidable (instruction.LeadsOn address)
  | .operation .. => isTrue trivial
  | .jump _ target => inferInstanceAs (Decidable (address < target.toNat))

/-- Every word that is a jump has a target behind its own address. -/
def Rom.Forward (rom : Rom) : Prop :=
  ∀ address : Fin 16, (Instruction.decode (rom.words.get address)).LeadsOn address

instance (rom : Rom) : Decidable rom.Forward :=
  Nat.decidableForallFin _

namespace Machine

variable {machine : Machine}

/-- Inside the memory a step of a program without jumps back moves the program counter on. -/
theorem pc_lt_pc_step (hforward : machine.rom.Forward) (hinside : machine.state.pc ≤ 15) :
    machine.state.pc.toNat < machine.step.state.pc.toNat := by
  have hrange : machine.state.pc.toNat ≤ 15 := hinside
  rcases pc_step machine with ⟨target, _, ⟨condition, hnext, _⟩, hpc⟩ | ⟨_, hpc⟩
  · have hleads : machine.next.LeadsOn (machine.state.pc.toNat % 16) := hforward _
    rw [hnext] at hleads
    have htarget : machine.state.pc.toNat % 16 < target.toNat := hleads
    rw [hpc]
    omega
  · rw [hpc, toNat_pc_add_one hinside]
    exact Nat.lt_succ_self _

section Runs

variable {options : RunOptions} {last : Nat}

/-- Up to its end a run of such a program gets on by an address or more in every step. -/
theorem pc_add_le (hforward : machine.rom.Forward)
    (hlast : IsLeast {count | EndsAt options machine count} last) {first more : Nat}
    (hmore : first + more ≤ last) :
    (step^[first] machine).state.pc.toNat + more ≤
      (step^[first + more] machine).state.pc.toNat := by
  induction more with
  | zero => exact Nat.le_refl _
  | succ more ih =>
      have hbefore := ih (Nat.le_of_succ_le hmore)
      have hlater : (step^[first + more] machine).rom.Forward := by
        rw [rom_iterate]
        exact hforward
      have hstep := pc_lt_pc_step hlater (pc_le_of_lt_last hlast hmore)
      rw [← Nat.add_assoc, ← Nat.add_assoc, Function.iterate_succ_apply']
      omega

/-- The program counter has only so far to go. -/
theorem last_le (hforward : machine.rom.Forward) (hstart : machine.state.pc ≤ 15)
    (hlast : IsLeast {count | EndsAt options machine count} last) :
    last ≤ 16 - machine.state.pc.toNat := by
  have hway := pc_add_le hforward hlast (Nat.le_of_eq (Nat.zero_add last))
  have hend := toNat_pc_le_of_isLeast hstart hlast (Nat.le_refl last)
  rw [Nat.zero_add, Function.iterate_zero_apply] at hway
  omega

/-- No jump of such a program goes to its own address. -/
theorem not_haltsAt_last (hforward : machine.rom.Forward)
    (hhalt : options.halt = .never ∨ options.halt = .selfLoop)
    (hlast : IsLeast {count | EndsAt options machine count} last) :
    ¬HaltsAt options.halt machine last := by
  intro hhalts
  rcases hhalt with hnever | hloop
  · rw [hnever] at hhalts
    exact not_haltsAt_never hhalts
  · rw [hloop] at hhalts
    cases last with
    | zero => exact hhalts
    | succ count =>
        have hstep := pc_add_le hforward hlast (Nat.le_refl (count + 1))
        rw [hhalts.2] at hstep
        omega

theorem nodup_pc_trail (hforward : machine.rom.Forward)
    (hlast : IsLeast {count | EndsAt options machine count} last) :
    ((trail machine last).map (·.state.pc)).Nodup := by
  rw [trail, List.map_map]
  refine List.pairwise_map.mpr (List.pairwise_lt_range.imp_of_mem ?_)
  intro first second _ hsecond hlt hsame
  obtain ⟨more, rfl⟩ := Nat.exists_eq_add_of_lt hlt
  have hway : (step^[first] machine).state.pc.toNat + (more + 1) ≤
      (step^[first + more + 1] machine).state.pc.toNat :=
    pc_add_le hforward hlast (Nat.le_of_lt (List.mem_range.mp hsecond))
  have hnat : (step^[first] machine).state.pc.toNat =
      (step^[first + more + 1] machine).state.pc.toNat := congrArg UInt8.toNat hsame
  omega

end Runs

/-- A program without jumps back terminates. From an address of the memory on, with a budget for
more instructions than there are addresses left, its run comes to the end of the memory, whatever
the registers and the flag are. It takes no more instructions than there are addresses left, and
is at none of them twice. -/
theorem run_forward_terminates (hforward : machine.rom.Forward) (hstart : machine.state.pc ≤ 15)
    {options : RunOptions} (hhalt : options.halt = .never ∨ options.halt = .selfLoop)
    (hbudget : 16 - machine.state.pc.toNat < options.budget) :
    (machine.run options).stop = .outOfRange ∧
      (machine.run options).machine.state.pc = 16 ∧
      (machine.run options).cycles ≤ 16 - machine.state.pc.toNat ∧
      (∀ passed ∈ machine.visited options, passed.state.pc ≤ 15) ∧
      ((machine.visited options).map (·.state.pc)).Nodup := by
  obtain ⟨last, hlast, _, hrun⟩ := run_ends options machine
  have hle := last_le hforward hstart hlast
  have hgoing := not_haltsAt_last hforward hhalt hlast
  have hspare : last ≠ options.budget := by omega
  have hleft : 15 < (step^[last] machine).state.pc.toNat :=
    (hlast.1.resolve_left hgoing).resolve_left hspare
  have hend := toNat_pc_le_of_isLeast hstart hlast (Nat.le_refl last)
  rw [visited_eq_trail, hrun]
  refine ⟨?_, ?_, hle, ?_, nodup_pc_trail hforward hlast⟩
  · dsimp only
    rw [stopAt, if_neg hgoing, if_neg hspare]
  · apply UInt8.toNat_inj.mp
    change (step^[last] machine).state.pc.toNat = 16
    omega
  · intro passed hpassed
    obtain ⟨count, hcount, rfl⟩ := mem_trail_iff.mp hpassed
    exact pc_le_of_lt_last hlast hcount

/-- The first jump is taken, to address `3`, and the second one is not, so the run leaves out
addresses `1` and `2`. -/
theorem run_forward_terminates_branches :
    let machine : Machine :=
      ⟨⟨#v[0x9B, 0, 0, 0, 0xDF, 0, 0, 0, 0, 0, 0, 0, 0, 0, 0, 0]⟩, ⟨#v[0, 1, 2, 3], 0, true⟩, 0⟩
    machine.rom.Forward ∧ machine.state.pc ≤ 15 ∧ 16 - machine.state.pc.toNat < 17 ∧
      (machine.run ⟨17, .selfLoop⟩).stop = .outOfRange ∧
      (machine.run ⟨17, .selfLoop⟩).machine.state.pc = 16 ∧
      (machine.run ⟨17, .selfLoop⟩).cycles ≤ 16 ∧
      ((machine.visited ⟨17, .selfLoop⟩).map (·.state.pc)).Nodup := by
  intro machine
  have hforward : machine.rom.Forward := by decide
  have hstart : machine.state.pc ≤ 15 := by decide
  have hbudget : 16 - machine.state.pc.toNat < 17 := by decide
  have hhalt : (⟨17, .selfLoop⟩ : RunOptions).halt = .never ∨
      (⟨17, .selfLoop⟩ : RunOptions).halt = .selfLoop := Or.inr rfl
  obtain ⟨hstop, hpc, hcycles, _, honce⟩ :=
    run_forward_terminates hforward hstart hhalt hbudget
  exact ⟨hforward, hstart, hbudget, hstop, hpc, hcycles, honce⟩

end Machine

end EightBit
