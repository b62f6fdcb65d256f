import EightBit.Proofs.Rom.Verilog

/-!
# The Verilog module as an image of the memory

The lines of a module that are entries are those of the sixteen addresses, in order, and no line of
the text around them is one. Read back they are the words of the memory at every address, so
memories with the same module are the same.
-/

namespace EightBit.Rom

/-- The line sets a word of the memory. -/
def isEntry (line : List Char) : Bool :=
  (entryOf? line).isSome

theorem isEntry_verilogEntry (address : Nat) (word : UInt8) :
    isEntry (verilogEntry address word).toList = true := by
  rw [isEntry, entryOf?_verilogEntry, Option.isSome_some]

/-- Lines of which none is read are no entries. -/
theorem filter_isEntry_eq_nil {lines : List (List Char)} (hnone : lines.filterMap entryOf? = []) :
    lines.filter isEntry = [] := by
  rw [List.filterMap_eq_nil_iff] at hnone
  rw [List.filter_eq_nil_iff]
  intro line hline
  rw [isEntry, hnone line hline]
  exact Bool.false_ne_true

/-- The entries are the lines between the head and the tail of the module. -/
theorem filter_isEntry_verilog (rom : Rom) :
    (Text.lines rom.verilog.toList).filter isEntry =
      rom.words.toList.zipIdx.map fun (word, address) => (verilogEntry address word).toList := by
  have hentries : ∀ line ∈ rom.words.toList.zipIdx.map
      fun (word, address) => (verilogEntry address word).toList, isEntry line = true := by
    intro line hline
    obtain ⟨⟨word, address⟩, _, rfl⟩ := List.mem_map.mp hline
    exact isEntry_verilogEntry address word
  rw [lines_verilog, verilogLines, List.map_append, List.map_append, List.filter_append,
    List.filter_append, filter_isEntry_eq_nil filterMap_entryOf?_head,
    filter_isEntry_eq_nil filterMap_entryOf?_tail, List.nil_append, List.append_nil, List.map_map]
  exact List.filter_eq_self.mpr hentries

/-- The word that is read at an address is that of the entry for its four low bits. -/
theorem getElem?_entries (rom : Rom) (address : UInt8) :
    (entries rom.verilog)[address.toNat % 16]? =
      some (address.toNat % 16, (rom.read address).toNat) := by
  have hlow : address.toNat % 16 < rom.words.toList.length := by
    rw [Vector.length_toList]
    exact Nat.mod_lt _ (by decide)
  rw [entries_verilog, List.getElem?_map, List.getElem?_zipIdx, List.getElem?_eq_getElem hlow,
    Option.map_some, Option.map_some, Nat.zero_add]
  rfl

theorem map_snd_entries (rom : Rom) :
    (entries rom.verilog).map Prod.snd = rom.words.toList.map UInt8.toNat := by
  have hwords := congrArg (List.map UInt8.toNat) (List.zipIdx_map_fst 0 rom.words.toList)
  rw [List.map_map] at hwords
  rw [entries_verilog, List.map_map]
  exact hwords

/-- Nothing of the memory is lost in its module. -/
theorem verilog_inj {left right : Rom} :
    left.verilog = right.verilog ↔ left.words = right.words := by
  constructor
  · intro hverilog
    have htoNat : Function.Injective UInt8.toNat := fun _ _ => UInt8.toNat_inj.mp
    apply Vector.toList_inj.mp
    apply htoNat.list_map
    rw [← map_snd_entries, ← map_snd_entries, hverilog]
  · intro hwords
    rw [verilog, verilog, hwords]

/-- A program is refused, with its length, only when it has more than sixteen words. Any other has a
module in which sixteen lines are entries, those of the addresses in order, which are read back as
the words of the program and zeros behind them, and as what is read at any address. Two memories
have the same module exactly when they have the same words. -/
theorem verilog_is_image (program : List UInt8) :
    (∀ error, ofProgram program = .error error ↔
        16 < program.length ∧ error = ⟨program.length⟩) ∧
      (program.length ≤ 16 → ∃ rom, ofProgram program = .ok rom ∧
        (Text.lines rom.verilog.toList).filter isEntry = (List.range 16).map
          (fun address => (verilogEntry address (program.getD address 0)).toList) ∧
        entries rom.verilog = (List.range 16).map
          (fun address => (address, (program.getD address 0).toNat)) ∧
        ∀ address : UInt8, (entries rom.verilog)[address.toNat % 16]? =
          some (address.toNat % 16, (rom.read address).toNat)) ∧
      ∀ left right : Rom, left.verilog = right.verilog ↔ left.words = right.words := by
  refine ⟨fun error => ofProgram_eq_error_iff, fun hsize => ?_, fun left right => verilog_inj⟩
  obtain ⟨rom, hrom⟩ := exists_ofProgram hsize
  refine ⟨rom, hrom, ?_, entries_verilog_of_ofProgram hrom, getElem?_entries rom⟩
  rw [filter_isEntry_verilog, zipIdx_words_of_ofProgram hrom, List.map_map]
  rfl

/-- The word at the second address, which is read at address `17` as well. -/
theorem verilog_is_image_two_words :
    [(0xA6 : UInt8), 0x7B].length ≤ 16 ∧ ∃ rom, ofProgram [0xA6, 0x7B] = .ok rom ∧
      (entries rom.verilog)[1]? = some (1, 0x7B) ∧ (rom.read 17).toNat = 0x7B := by
  have hsize : [(0xA6 : UInt8), 0x7B].length ≤ 16 := by decide
  obtain ⟨rom, hrom, _, hentries, hread⟩ := (verilog_is_image [0xA6, 0x7B]).2.1 hsize
  have hentry : (entries rom.verilog)[1]? = some (1, 0x7B) := by
    rw [hentries]
    rfl
  have hsame := (hread 17).symm.trans hentry
  exact ⟨hsize, rom, hrom, hentry, congrArg Prod.snd (Option.some.inj hsame)⟩

end EightBit.Rom
