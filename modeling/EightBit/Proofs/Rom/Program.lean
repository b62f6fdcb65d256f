import EightBit.Rom.Basic
import Mathlib.Data.List.GetD

/-!
# Programs in memory

Which programs fit into the memory, and the word at each address behind that.
-/

namespace EightBit.Rom

theorem exists_ofProgram {program : List UInt8} (hsize : program.length ≤ 16) :
    ∃ rom, ofProgram program = .ok rom := by
  rw [ofProgram, dif_pos hsize]
  exact ⟨_, rfl⟩

/-- Only a program that is too long has no place in the memory, and its length is reported. -/
theorem ofProgram_eq_error_iff {program : List UInt8} {error : ProgramTooLarge} :
    ofProgram program = .error error ↔ 16 < program.length ∧ error = ⟨program.length⟩ := by
  rw [ofProgram]
  split
  · rename_i hsize
    exact iff_of_false nofun fun hlarge => absurd hsize (Nat.not_le_of_lt hlarge.1)
  · rename_i hsize
    rw [Except.error.injEq, and_iff_right (Nat.lt_of_not_le hsize), eq_comm]

/-- The word at an address is that of the program, or `nop` behind it. -/
theorem read_ofProgram {program : List UInt8} {rom : Rom} (hrom : ofProgram program = .ok rom)
    (address : UInt8) : rom.read address = program.getD (address.toNat % 16) nop := by
  rw [ofProgram] at hrom
  split at hrom
  · cases hrom
    change (program.rightpad 16 nop).get ⟨address.toNat % 16, _⟩ = _
    rw [List.get_eq_getElem]
    simp only [List.rightpad]
    by_cases hinside : address.toNat % 16 < program.length
    · rw [List.getElem_append_left hinside, List.getD_eq_getElem program nop hinside]
    · have hbehind : program.length ≤ address.toNat % 16 := Nat.le_of_not_lt hinside
      rw [List.getElem_append_right hbehind, List.getElem_replicate,
        List.getD_eq_default program nop hbehind]
  · cases hrom

end EightBit.Rom
