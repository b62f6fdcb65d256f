import EightBit.Proofs.Machine.Registers
import EightBit.Proofs.Machine.Stopping

/-!
# What the zero flag tells

Moves and jumps leave the zero flag alone, and every other instruction sets it by its result. So
after any number of steps the flag tells of the last result, or is still what it was at the start.
-/

namespace EightBit

/-- The instruction is a move or a jump. -/
def Instruction.KeepsFlag : Instruction → Prop
  | .operation opcode _ _ => opcode = .mov
  | .jump _ _ => True

namespace Machine

/-- The next instruction has this result: the value that it stores in its destination, or, of a
comparison, the difference of its two registers modulo 256. -/
inductive Yields (machine : Machine) : UInt8 → Prop
  | stored {opcode : Opcode} {dest source : UInt8}
      (hnext : machine.next = .operation opcode dest source) (hmove : opcode ≠ .mov)
      (hcompare : opcode ≠ .cmp) :
      Yields machine (machine.step.state.register (Register.ofField dest))
  | compared {dest source : UInt8} (hnext : machine.next = .operation .cmp dest source) :
      Yields machine (machine.state.register (Register.ofField dest) -
        machine.state.register (Register.ofField source))

/-! ## One step -/

/-- A step leaves the flag alone or sets it by a result. -/
theorem zero_step (machine : Machine) :
    machine.next.KeepsFlag ∧ machine.step.state.zero = machine.state.zero ∨
      ∃ result, machine.Yields result ∧ (machine.step.state.zero = true ↔ result = 0) := by
  cases hnext : machine.next with
  | jump condition target =>
      left
      rw [state_step, hnext]
      exact ⟨trivial, rfl⟩
  | operation opcode dest source =>
      by_cases hmove : opcode = .mov
      · left
        subst hmove
        rw [state_step, hnext]
        exact ⟨rfl, rfl⟩
      right
      by_cases hcompare : opcode = .cmp
      · subst hcompare
        refine ⟨_, .compared hnext, ?_⟩
        rw [state_step, hnext]
        exact beq_iff_eq
      · refine ⟨_, .stored hnext hmove hcompare, ?_⟩
        rw [state_step, hnext, State.execute, State.register_operate_dest hcompare,
          State.zero_operate hmove, beq_iff_eq]

/-- A step changes no register but the one that its instruction writes. -/
theorem register_step {machine : Machine} {register : Register}
    (hkept : ¬machine.next.Writes register) :
    machine.step.state.register register = machine.state.register register :=
  State.register_execute hkept

/-! ## Any number of steps -/

/-- The flag after some steps is the one before them if they all keep it. Otherwise it tells of the
result of the last step that does not. -/
theorem zero_iterate (machine : Machine) (count : Nat) :
    (∀ passed ∈ trail machine count, passed.next.KeepsFlag) ∧
        (step^[count] machine).state.zero = machine.state.zero ∨
      ∃ before last after result, trail machine count = before ++ last :: after ∧
        last.Yields result ∧ (∀ passed ∈ after, passed.next.KeepsFlag) ∧
        ((step^[count] machine).state.zero = true ↔ result = 0) := by
  -- The trail grows at its end: the last step either tells a result itself or leaves the flag to
  -- the steps before it.
  induction count with
  | zero => exact Or.inl ⟨List.forall_mem_nil _, rfl⟩
  | succ count ih =>
      rw [trail_succ, Function.iterate_succ_apply']
      rcases zero_step (step^[count] machine) with ⟨hkeeps, hzero⟩ | ⟨result, hyields, htells⟩
      · have hlast : ∀ passed ∈ [step^[count] machine], passed.next.KeepsFlag :=
          List.forall_mem_singleton.mpr hkeeps
        rw [hzero]
        rcases ih with ⟨hall, hstart⟩ |
          ⟨before, last, after, result, htrail, hyields, hafter, htells⟩
        · exact Or.inl ⟨List.forall_mem_append.mpr ⟨hall, hlast⟩, hstart⟩
        · right
          refine ⟨before, last, after ++ [step^[count] machine], result, ?_, hyields, ?_, htells⟩
          · rw [htrail, List.append_assoc, List.cons_append]
          · exact List.forall_mem_append.mpr ⟨hafter, hlast⟩
      · right
        exact ⟨_, _, [], result, rfl, hyields, List.forall_mem_nil _, htells⟩

/-- After any number of steps the flag is that of the start if all of them were moves or jumps, and
otherwise tells if the last result was zero. Each step leaves all registers alone that its
instruction does not write, so comparisons and jumps change none and the others at most their
destination. -/
theorem zero_tells_last_result (machine : Machine) (count : Nat) :
    ((∀ passed ∈ trail machine count, passed.next.KeepsFlag) ∧
          (step^[count] machine).state.zero = machine.state.zero ∨
        ∃ before last after result, trail machine count = before ++ last :: after ∧
          last.Yields result ∧ (∀ passed ∈ after, passed.next.KeepsFlag) ∧
          ((step^[count] machine).state.zero = true ↔ result = 0)) ∧
      ∀ passed ∈ trail machine count, ∀ register, ¬passed.next.Writes register →
        passed.step.state.register register = passed.state.register register := by
  constructor
  · exact zero_iterate machine count
  · intro passed _ register hkept
    exact register_step hkept

/-- A comparison of `R1` with `R2` writes no register. -/
theorem zero_tells_last_result_compare :
    let machine := start ⟨#v[0xCA, 0, 0, 0, 0, 0, 0, 0, 0, 0, 0, 0, 0, 0, 0, 0]⟩
    machine ∈ trail machine 1 ∧ (∀ register, ¬machine.next.Writes register) ∧
      ∀ register, machine.step.state.register register = machine.state.register register := by
  intro machine
  have hpassed : machine ∈ trail machine 1 := List.mem_singleton_self machine
  have hnext : machine.next = .operation .cmp 1 2 := by decide
  have hkept : ∀ register, ¬machine.next.Writes register := by
    intro register
    rw [hnext]
    exact fun hwrites => hwrites.1 rfl
  refine ⟨hpassed, hkept, fun register => ?_⟩
  exact (zero_tells_last_result machine 1).2 machine hpassed register (hkept register)

end Machine

end EightBit
