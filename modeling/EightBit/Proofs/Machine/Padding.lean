import EightBit.Proofs.Machine.Registers
import EightBit.Proofs.Machine.SelfLoop
import EightBit.Proofs.Rom.Program
import Mathlib.Algebra.Group.Nat.Defs

/-!
# Behind the end of a program

The words behind a program are no idle ones: each adds `R0` to itself and sets the flag by the sum.
A run that gets to the end of a program goes through all of them and doubles `R0` as often.
-/

namespace EightBit

/-- The state comes about from the one before by as many times `ADD R0, R0` as `count` says. -/
structure State.Doubled (before : State) (count : Nat) (state : State) : Prop where
  pc : state.pc.toNat = before.pc.toNat + count
  first : (state.register 0).toNat = (before.register 0).toNat * 2 ^ count % 256
  others : ∀ register ≠ 0, state.register register = before.register register
  zero : 0 < count → (state.zero = true ↔ state.register 0 = 0)

namespace State.Doubled

theorem refl (before : State) : Doubled before 0 before where
  pc := rfl
  first := by
    rw [Nat.pow_zero, Nat.mul_one]
    exact (Nat.mod_eq_of_lt (before.register 0).toNat_lt).symm
  others := fun _ _ => rfl
  zero := fun hpos => absurd hpos (Nat.lt_irrefl 0)

theorem operate {before state : State} {count : Nat} (hdoubled : Doubled before count state)
    (hpc : state.pc ≤ 15) : Doubled before (count + 1) (state.operate .add 0 0) := by
  have hsum : (state.operate .add 0 0).register 0 = state.register 0 + state.register 0 :=
    register_operate_dest nofun
  have hflag : (state.operate .add 0 0).zero = (state.register 0 + state.register 0 == 0) :=
    zero_operate nofun
  constructor
  · change (state.pc + 1).toNat = _
    rw [Machine.toNat_pc_add_one hpc, hdoubled.pc, Nat.add_assoc]
  · have hdouble : ((state.register 0).toNat + (state.register 0).toNat) % 256 =
        (before.register 0).toNat * 2 ^ count * 2 % 256 := by
      rw [hdoubled.first]
      omega
    rw [hsum, UInt8.toNat_add, Nat.pow_succ 2 count, ← Nat.mul_assoc]
    exact hdouble
  · intro register hother
    rw [register_operate_of_ne (Ne.symm hother), hdoubled.others register hother]
  · intro _
    rw [hflag, hsum]
    exact beq_iff_eq

/-- Doubling eight times leaves nothing of a number of eight bits. -/
theorem first_eq_zero {before state : State} {count : Nat} (hdoubled : Doubled before count state)
    (hcount : 8 ≤ count) : state.register 0 = 0 := by
  obtain ⟨more, rfl⟩ := Nat.exists_eq_add_of_le' hcount
  apply UInt8.toNat_inj.mp
  rw [hdoubled.first, Nat.pow_add, ← Nat.mul_assoc]
  exact Nat.mul_mod_left _ (2 ^ 8)

end State.Doubled

namespace Machine

variable {program : List UInt8} {machine : Machine}

/-! ## One word of padding -/

theorem next_of_padding (hrom : Rom.ofProgram program = .ok machine.rom)
    (hbehind : program.length ≤ machine.state.pc.toNat) (hinside : machine.state.pc ≤ 15) :
    machine.next = .operation .add 0 0 := by
  have haddress : machine.state.pc.toNat % 16 = machine.state.pc.toNat :=
    Nat.mod_eq_of_lt (Nat.lt_succ_of_le hinside)
  have hword : machine.word = nop := by
    rw [word, Rom.read_ofProgram hrom, haddress, List.getD_eq_default _ _ hbehind]
  rw [next, hword]
  rfl

/-! ## All of it -/

/-- Every step behind the end of the program doubles `R0`, up to the end of the memory. -/
theorem doubled_iterate (hrom : Rom.ofProgram program = .ok machine.rom)
    (hbehind : program.length ≤ machine.state.pc.toNat) {count : Nat}
    (hinside : machine.state.pc.toNat + count ≤ 16) :
    machine.state.Doubled count (step^[count] machine).state := by
  induction count with
  | zero => exact .refl machine.state
  | succ count ih =>
      have hdoubled := ih (by omega)
      have hpc := hdoubled.pc
      have hrange : (step^[count] machine).state.pc ≤ 15 :=
        show (step^[count] machine).state.pc.toNat ≤ 15 by omega
      have hlater : Rom.ofProgram program = .ok (step^[count] machine).rom := by
        rw [rom_iterate]
        exact hrom
      have hnext := next_of_padding hlater (by omega) hrange
      rw [Function.iterate_succ_apply', state_step, hnext]
      exact hdoubled.operate hrange

theorem doubled_of_reached (hrom : Rom.ofProgram program = .ok machine.rom) {count more : Nat}
    (hreached : (step^[count] machine).state.pc.toNat = program.length)
    (hmore : program.length + more ≤ 16) :
    (step^[count] machine).state.Doubled more (step^[count + more] machine).state := by
  have hlater : Rom.ofProgram program = .ok (step^[count] machine).rom := by
    rw [rom_iterate]
    exact hrom
  rw [Nat.add_comm count more, Function.iterate_add_apply]
  exact doubled_iterate hlater (Nat.le_of_eq hreached.symm) (by omega)

theorem pc_of_reached (hrom : Rom.ofProgram program = .ok machine.rom) {count more : Nat}
    (hreached : (step^[count] machine).state.pc.toNat = program.length)
    (hmore : program.length + more ≤ 16) :
    (step^[count + more] machine).state.pc.toNat = program.length + more := by
  rw [← hreached]
  exact (doubled_of_reached hrom hreached hmore).pc

/-- A run that has got to the end of the program ends behind the padding. -/
theorem run_of_reached (hrom : Rom.ofProgram program = .ok machine.rom)
    (hsize : program.length ≤ 15) {count budget : Nat}
    (hreached : (step^[count] machine).state.pc.toNat = program.length)
    (hinside : ∀ earlier < count, (step^[earlier] machine).state.pc ≤ 15)
    (hbudget : count + (16 - program.length) < budget) :
    machine.run ⟨budget, .never⟩ =
      ⟨step^[count + (16 - program.length)] machine, count + (16 - program.length),
        .outOfRange, ()⟩ := by
  apply run_of_leaves hbudget
  · intro earlier _
    exact not_haltsAt_never
  · intro earlier hearlier
    rcases Nat.lt_or_ge earlier count with hbefore | hafter
    · exact hinside earlier hbefore
    · obtain ⟨more, rfl⟩ := Nat.exists_eq_add_of_le hafter
      have hpc := pc_of_reached hrom hreached (show program.length + more ≤ 16 by omega)
      change (step^[count + more] machine).state.pc.toNat ≤ 15
      omega
  · have hpc := pc_of_reached hrom hreached
      (show program.length + (16 - program.length) ≤ 16 by omega)
    change 15 < (step^[count + (16 - program.length)] machine).state.pc.toNat
    omega

/-- What a run does that gets to the end of its program, with a budget for more than the words
behind it. It goes through all of these and leaves the memory at its end. They double `R0` as often
as there are words, set the flag by what they leave there, and change no other register. Eight words
or more leave nothing in `R0`. -/
theorem run_through_padding (hrom : Rom.ofProgram program = .ok machine.rom)
    (hsize : program.length ≤ 15) {count budget : Nat}
    (hreached : (step^[count] machine).state.pc.toNat = program.length)
    (hinside : ∀ earlier < count, (step^[earlier] machine).state.pc ≤ 15)
    (hbudget : count + (16 - program.length) < budget) :
    let reached := (step^[count] machine).state
    let run := machine.run ⟨budget, .never⟩
    run.stop = .outOfRange ∧ run.cycles = count + (16 - program.length) ∧
      run.machine.state.pc = 16 ∧
      (∀ register ≠ 0, run.machine.state.register register = reached.register register) ∧
      (run.machine.state.register 0).toNat =
        (reached.register 0).toNat * 2 ^ (16 - program.length) % 256 ∧
      (run.machine.state.zero = true ↔ run.machine.state.register 0 = 0) ∧
      (program.length ≤ 8 → run.machine.state.register 0 = 0) := by
  intro reached run
  have hrun : run = _ := run_of_reached hrom hsize hreached hinside hbudget
  have hdoubled : reached.Doubled (16 - program.length) run.machine.state := by
    rw [hrun]
    exact doubled_of_reached hrom hreached (by omega)
  have hpc : run.machine.state.pc.toNat = 16 := by
    rw [hdoubled.pc, hreached]
    omega
  refine ⟨by rw [hrun], by rw [hrun], UInt8.toNat_inj.mp hpc, hdoubled.others, hdoubled.first,
    hdoubled.zero (by omega), ?_⟩
  intro hshort
  exact hdoubled.first_eq_zero (by omega)

/-- Behind the last word, a move to `R1`, the three words of padding make `64` of `200` and take
back the flag. -/
theorem run_through_padding_move :
    let program : List UInt8 := [0, 0, 0, 0, 0, 0, 0, 0, 0, 0, 0, 0, 0xAE]
    let machine : Machine :=
      ⟨⟨#v[0, 0, 0, 0, 0, 0, 0, 0, 0, 0, 0, 0, 0xAE, 0, 0, 0]⟩, ⟨#v[200, 1, 2, 3], 12, true⟩, 0⟩
    Rom.ofProgram program = .ok machine.rom ∧ program.length ≤ 15 ∧
      (step^[1] machine).state = ⟨#v[200, 2, 2, 3], 13, true⟩ ∧
      (∀ earlier < 1, (step^[earlier] machine).state.pc ≤ 15) ∧
      1 + (16 - program.length) < 5 ∧
      (machine.run ⟨5, .never⟩).stop = .outOfRange ∧ (machine.run ⟨5, .never⟩).cycles = 4 ∧
      ((machine.run ⟨5, .never⟩).machine.state.register 0).toNat = 200 * 2 ^ 3 % 256 ∧
      (machine.run ⟨5, .never⟩).machine.state.zero = false := by
  intro program machine
  have hrom : Rom.ofProgram program = .ok machine.rom := rfl
  have hsize : program.length ≤ 15 := by decide
  have hreached : (step^[1] machine).state = ⟨#v[200, 2, 2, 3], 13, true⟩ := by decide
  have hinside : ∀ earlier < 1, (step^[earlier] machine).state.pc ≤ 15 := by decide
  have hbudget : 1 + (16 - program.length) < 5 := by decide
  have hend : (step^[1] machine).state.pc.toNat = program.length := by decide
  obtain ⟨hstop, hcycles, _, _, hfirst, hzero, _⟩ :=
    run_through_padding hrom hsize hend hinside hbudget
  rw [hreached] at hfirst
  refine ⟨hrom, hsize, hreached, hinside, hbudget, hstop, hcycles, hfirst, ?_⟩
  rw [Bool.eq_false_iff, ne_eq, hzero]
  intro hnothing
  rw [hnothing] at hfirst
  exact absurd hfirst (by decide)

end Machine

end EightBit
