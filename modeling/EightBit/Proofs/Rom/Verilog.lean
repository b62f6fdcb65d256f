import EightBit.Proofs.Numeral
import EightBit.Proofs.Rom.Program
import EightBit.Proofs.Text.Columns
import EightBit.Proofs.Text.Lines
import EightBit.Rom.Verilog
import Mathlib.Data.List.TakeWhile

/-!
# Reading what is written about a memory

The entries of a Verilog module and the bytes of a dump are read back as the words that they were
written from.
-/

namespace EightBit

namespace Rom

/-! ## Entries -/

/-- The address and the word of a line `memory[i] = 8'hXX;`, with any number of spaces before it and
before the address. -/
def entryOf? (line : List Char) : Option (Nat × Nat) := do
  let entry ← (line.dropWhile (· = ' ')).dropPrefix? "memory[".toList
  let place := entry.takeWhile (· ≠ ']')
  let address ← Numeral.number? 10 (place.dropWhile (· = ' '))
  let digits ← (entry.dropWhile (· ≠ ']')).dropPrefix? "] = 8'h".toList
  guard (digits.length = 3 ∧ digits.getLast? = some ';')
  let word ← Numeral.number? 16 digits.dropLast
  return (address, word)

/-- The addresses and words that the entries of a text set, in their order. -/
def entries (text : String) : List (Nat × Nat) :=
  (Text.lines text.toList).filterMap entryOf?

/-- The spaces that fill the column of an address. -/
def padding (address : Nat) : List Char :=
  List.replicate (2 - (Numeral.decimal address).toList.length) ' '

theorem toList_verilogEntry (address : Nat) (word : UInt8) :
    (verilogEntry address word).toList =
      List.replicate 8 ' ' ++ ("memory[".toList ++
        ((padding address ++ (Numeral.decimal address).toList) ++
          ("] = 8'h".toList ++ ((Numeral.hex word).toList ++ [';'])))) := by
  have hfront : "        memory[".toList = List.replicate 8 ' ' ++ "memory[".toList := rfl
  have hend : ";".toList = [';'] := rfl
  have hcolumn : (Text.rightAligned 2 (Numeral.decimal address)).toList =
      padding address ++ (Numeral.decimal address).toList := String.toList_ofList
  change ("        memory[" ++ Text.rightAligned 2 (Numeral.decimal address) ++ "] = 8'h" ++
    Numeral.hex word ++ ";").toList = _
  simp only [String.toList_append, hfront, hend, hcolumn, List.append_assoc]

theorem eq_of_mem_padding {address : Nat} {c : Char} (hc : c ∈ padding address) : c = ' ' :=
  List.eq_of_mem_replicate hc

theorem dropWhile_padding (address : Nat) :
    (padding address ++ (Numeral.decimal address).toList).dropWhile (· = ' ') =
      (Numeral.decimal address).toList := by
  have hcolumn := Text.dropWhile_rightAligned_decimal 2 address
  rwa [Text.rightAligned, String.toList_ofList] at hcolumn

/-- An entry is read back. -/
theorem entryOf?_verilogEntry (address : Nat) (word : UInt8) :
    entryOf? (verilogEntry address word).toList = some (address, word.toNat) := by
  have hbracket : ']' ∉ (Numeral.decimal address).toList :=
    Numeral.not_mem_decimal (by decide) address
  have hplain : ∀ c ∈ padding address ++ (Numeral.decimal address).toList,
      decide (c ≠ ']') = true := by
    rintro c hc
    rw [decide_eq_true_iff]
    rintro rfl
    rcases List.mem_append.mp hc with hpad | hdigit
    · exact absurd (eq_of_mem_padding hpad) (by decide)
    · exact hbracket hdigit
  have hfront : ∀ rest : List Char,
      (List.replicate 8 ' ' ++ ("memory[".toList ++ rest)).dropWhile (· = ' ') =
        "memory[".toList ++ rest := fun _ => rfl
  have htake : ∀ rest : List Char, ("] = 8'h".toList ++ rest).takeWhile (· ≠ ']') = [] :=
    fun _ => rfl
  have hdrop : ∀ rest : List Char,
      ("] = 8'h".toList ++ rest).dropWhile (· ≠ ']') = "] = 8'h".toList ++ rest := fun _ => rfl
  have hlast : ((Numeral.hex word).toList ++ [';']).length = 3 ∧
      ((Numeral.hex word).toList ++ [';']).getLast? = some ';' := by
    simp [Numeral.length_hex]
  simp only [entryOf?, toList_verilogEntry, hfront, Text.dropPrefix?_append, Option.bind_eq_bind,
    Option.bind_some, List.takeWhile_append_of_pos hplain, List.dropWhile_append_of_pos hplain,
    htake, hdrop, List.append_nil, dropWhile_padding, Numeral.number?_decimal, guard,
    if_pos hlast, List.dropLast_concat, Numeral.number?_hex]
  rfl

/-- The lines around the entries are no entries. -/
theorem filterMap_entryOf?_head : (verilogHead.map String.toList).filterMap entryOf? = [] := by
  decide

theorem filterMap_entryOf?_tail : (verilogTail.map String.toList).filterMap entryOf? = [] := by
  decide

theorem not_mem_verilogEntry (address : Nat) (word : UInt8) :
    '\n' ∉ (verilogEntry address word).toList := by
  have hdecimal : '\n' ∉ (Numeral.decimal address).toList :=
    Numeral.not_mem_decimal (by decide) address
  have hhex : '\n' ∉ (Numeral.hex word).toList :=
    Numeral.not_mem_hex (by decide) word
  have hpad : '\n' ∉ padding address := fun h => absurd (eq_of_mem_padding h) (by decide)
  rw [toList_verilogEntry]
  simp only [List.mem_append, not_or]
  exact ⟨by decide, by decide, ⟨hpad, hdecimal⟩, by decide, hhex, by decide⟩

theorem getLast?_verilogEntry (address : Nat) (word : UInt8) :
    (verilogEntry address word).toList.getLast? = some ';' := by
  rw [toList_verilogEntry]
  simp only [← List.append_assoc, List.getLast?_concat]

def verilogLines (rom : Rom) : List String :=
  verilogHead ++ rom.words.toList.zipIdx.map (fun (word, address) => verilogEntry address word) ++
    verilogTail

theorem lines_verilog (rom : Rom) :
    Text.lines rom.verilog.toList = rom.verilogLines.map String.toList := by
  have hfront : ∀ line ∈ verilogHead ++ verilogTail,
      '\n' ∉ line.toList ∧ line.toList.getLast? ≠ some '\r' := by
    decide +kernel
  have hlines : ∀ line ∈ rom.verilogLines,
      '\n' ∉ line.toList ∧ line.toList.getLast? ≠ some '\r' := by
    intro line hline
    rw [verilogLines, List.mem_append, List.mem_append] at hline
    rcases hline with (hhead | hentry) | htail
    · exact hfront line (List.mem_append_left _ hhead)
    · obtain ⟨⟨word, address⟩, _, rfl⟩ := List.mem_map.mp hentry
      dsimp only
      rw [getLast?_verilogEntry]
      exact ⟨not_mem_verilogEntry address word, by decide⟩
    · exact hfront line (List.mem_append_right _ htail)
  exact Text.lines_unlines (fun line hline => (hlines line hline).1)
    fun line hline => (hlines line hline).2

theorem filterMap_entryOf?_map (words : List (UInt8 × Nat)) :
    ((words.map fun (word, address) => verilogEntry address word).map String.toList).filterMap
      entryOf? = words.map fun (word, address) => (address, word.toNat) := by
  induction words with
  | nil => rfl
  | cons first rest ih =>
      obtain ⟨word, address⟩ := first
      rw [List.map_cons, List.map_cons, List.map_cons,
        List.filterMap_cons_some (entryOf?_verilogEntry address word), ih]

/-- The entries of the module of a memory are its words at their addresses. -/
theorem entries_verilog (rom : Rom) :
    entries rom.verilog =
      rom.words.toList.zipIdx.map fun (word, address) => (address, word.toNat) := by
  rw [entries, lines_verilog, verilogLines, List.map_append, List.map_append,
    List.filterMap_append, List.filterMap_append, filterMap_entryOf?_head, filterMap_entryOf?_tail,
    List.nil_append, List.append_nil, filterMap_entryOf?_map]

theorem toList_words_of_ofProgram {program : List UInt8} {rom : Rom}
    (hrom : ofProgram program = .ok rom) : rom.words.toList = program.rightpad 16 nop := by
  rw [ofProgram] at hrom
  split at hrom
  · cases hrom
    rfl
  · cases hrom

/-- The words of a memory with a program are those of the program, and zeros up to the last
address. -/
theorem zipIdx_words_of_ofProgram {program : List UInt8} {rom : Rom}
    (hrom : ofProgram program = .ok rom) :
    rom.words.toList.zipIdx =
      (List.range 16).map fun address => (program.getD address 0, address) := by
  apply List.ext_getElem
  · simp
  · intro address hleft hright
    have haddress : address < rom.words.toList.length := by simpa using hleft
    have hword : rom.words.toList[address] = program.getD address nop := by
      rw [← List.getD_eq_getElem _ nop haddress, toList_words_of_ofProgram hrom, List.rightpad]
      rcases Nat.lt_or_ge address program.length with hinside | hbehind
      · rw [List.getD_append _ _ _ _ hinside]
      · rw [List.length_map, List.length_range] at hright
        rw [List.getD_append_right _ _ _ _ hbehind, List.getD_eq_default _ _ hbehind]
        exact List.getD_replicate nop (by omega)
    simp only [List.getElem_map, List.getElem_zipIdx, List.getElem_range, hword, Nat.zero_add]
    rfl

/-- The entries of the module of a program are its words, and zeros up to the last address. -/
theorem entries_verilog_of_ofProgram {program : List UInt8} {rom : Rom}
    (hrom : ofProgram program = .ok rom) :
    entries rom.verilog =
      (List.range 16).map fun address => (address, (program.getD address 0).toNat) := by
  rw [entries_verilog, zipIdx_words_of_ofProgram hrom, List.map_map]
  rfl

/-! ## Dumps -/

/-- The byte that two hexadecimal digits stand for. -/
def hexByte? (digits : List Char) : Option Nat :=
  if digits.length = 2 then Numeral.number? 16 digits else none

/-- The bytes of a dump with one space between any two of them. -/
def hexBytes? (dump : List Char) : Option (List Nat) :=
  if dump = [] then some [] else (dump.splitOn ' ').mapM hexByte?

theorem hexByte?_hex (byte : UInt8) : hexByte? (Numeral.hex byte).toList = some byte.toNat := by
  rw [hexByte?, if_pos (Numeral.length_hex byte), Numeral.number?_hex]

theorem splitOn_hexDump {bytes : List UInt8} (hbytes : bytes ≠ []) :
    (hexDump bytes).toList.splitOn ' ' = bytes.map fun byte => (Numeral.hex byte).toList := by
  have hspace : " ".toList = [' '] := rfl
  rw [hexDump, String.toList_intercalate, hspace, List.splitOn_intercalate, List.map_map]
  · rfl
  · intro digits hdigits
    simp only [List.map_map, List.mem_map, Function.comp_apply] at hdigits
    obtain ⟨byte, _, rfl⟩ := hdigits
    exact Numeral.not_mem_hex (by decide) byte
  · simpa using hbytes

/-- A dump is read back. -/
theorem hexBytes?_hexDump (bytes : List UInt8) :
    hexBytes? (hexDump bytes).toList = some (bytes.map UInt8.toNat) := by
  cases bytes with
  | nil => rfl
  | cons byte rest =>
      have hsplit := splitOn_hexDump (List.cons_ne_nil byte rest)
      have hne : (hexDump (byte :: rest)).toList ≠ [] := by
        intro hnil
        rw [hnil] at hsplit
        have hlength := congrArg (List.map List.length) hsplit
        simp [Numeral.length_hex] at hlength
      have hbytes : hexByte? ∘ (fun byte => (Numeral.hex byte).toList) =
          fun byte => pure (UInt8.toNat byte) := by
        funext byte
        rw [Function.comp_apply, hexByte?_hex]
        rfl
      rw [hexBytes?, if_neg hne, hsplit, List.mapM_map, hbytes, List.mapM_pure]
      rfl

end Rom

end EightBit
