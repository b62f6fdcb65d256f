import EightBit.Assembler.Listing
import EightBit.Proofs.Isa.Codec
import EightBit.Proofs.Source.Numbering
import EightBit.Proofs.Text.Columns

/-!
# Reading a listing

The rows of a listing are the pieces between its line feeds, and a row is read from both ends: the
columns of the word have fixed places when they are counted from the right, the number of the line
ends at the first colon, and the text between the two ends where only spaces follow. So nothing that
the text may contain can be mistaken for another part of the row.
-/

namespace EightBit

/-- What a row shows: the number and the text of a line, its word in binary and in hexadecimal, and
the fields of the word. -/
structure ListedLine where
  number : Nat
  source : String
  bits : Nat
  word : Nat
  opcode : Nat
  dest : Nat
  operand : Nat
deriving DecidableEq, Repr

namespace ListedLine

/-- The texts between the columns of a word, with their places. -/
def labels : List (Nat × String) :=
  [(0, " -> "), (12, " -> 0x"), (20, " (op:"), (28, " dest:"), (36, " src:"), (44, ")")]

/-- What a row shows, read off its last 45 characters and off what stands before them. -/
def ofRow? (row : String) : Option ListedLine := do
  -- Counted from the right, so that a text that is wider than its column moves no place.
  let columns := row.toList.rtake 45
  guard (∀ label ∈ labels, Text.column label.1 label.2.length columns = label.2.toList)
  let bits ← Numeral.number? 2 (Text.column 4 8 columns)
  let word ← Numeral.number? 16 (Text.column 18 2 columns)
  let opcode ← Numeral.number? 2 (Text.column 25 3 columns)
  let dest ← Numeral.number? 2 (Text.column 34 2 columns)
  let operand ← Numeral.number? 2 (Text.column 41 3 columns)
  let front ← (row.toList.rdrop 45).dropPrefix? "Line ".toList
  let number ← Numeral.number? 10 ((front.takeWhile (· ≠ ':')).dropWhile (· = ' '))
  let field ← (front.dropWhile (· ≠ ':')).dropPrefix? ": ".toList
  let source := String.ofList (Text.unfilled field)
  return { number, source, bits, word, opcode, dest, operand }

end ListedLine

namespace AssembledLine

/-- What the row of a line has to show. -/
def listed (line : AssembledLine) : ListedLine where
  number := line.number
  source := line.source
  bits := line.word.toNat
  word := line.word.toNat
  opcode := (Fields.ofWord line.word).opcode.toNat
  dest := (Fields.ofWord line.word).dest.toNat
  operand := (Fields.ofWord line.word).operand.toNat

theorem listed_injective : Function.Injective listed := by
  intro left right hlisted
  have hnumber := congrArg ListedLine.number hlisted
  have hsource := congrArg ListedLine.source hlisted
  have hword := UInt8.toNat_inj.mp (congrArg ListedLine.word hlisted)
  cases left
  cases right
  exact congr (congrArg₂ mk hnumber hsource) hword

/-! ## The parts of a row -/

/-- What stands behind the text of a line in its row. -/
def columns (line : AssembledLine) : List String :=
  [" -> ", Numeral.binary 8 line.word, " -> 0x", Numeral.hex line.word,
    " (op:", Numeral.binary 3 (Fields.ofWord line.word).opcode,
    " dest:", Numeral.binary 2 (Fields.ofWord line.word).dest,
    " src:", Numeral.binary 3 (Fields.ofWord line.word).operand, ")"]

/-- The number and the text of a line as they stand in its row. -/
def heading (line : AssembledLine) : List Char :=
  (Text.rightAligned 2 (Numeral.decimal line.number)).toList ++
    (": ".toList ++ (Text.leftAligned 20 line.source).toList)

theorem toList_row (line : AssembledLine) :
    line.row.toList =
      ("Line ".toList ++ line.heading) ++ line.columns.flatMap String.toList := by
  change ("Line " ++ Text.rightAligned 2 (Numeral.decimal line.number) ++
    ": " ++ Text.leftAligned 20 line.source ++
    " -> " ++ Numeral.binary 8 line.word ++ " -> 0x" ++ Numeral.hex line.word ++
    " (op:" ++ Numeral.binary 3 (Fields.ofWord line.word).opcode ++
    " dest:" ++ Numeral.binary 2 (Fields.ofWord line.word).dest ++
    " src:" ++ Numeral.binary 3 (Fields.ofWord line.word).operand ++ ")").toList = _
  simp only [heading, columns, String.toList_append, List.flatMap_cons, List.flatMap_nil,
    List.append_assoc, List.append_nil]

theorem map_length_columns (line : AssembledLine) :
    line.columns.map String.length = [4, 8, 6, 2, 5, 3, 6, 2, 5, 3, 1] := by
  have hhex : (Numeral.hex line.word).length = 2 := Numeral.length_hex line.word
  have hbinary (width : Nat) (byte : UInt8) : (Numeral.binary width byte).length = width :=
    Numeral.length_binary width byte
  simp only [columns, List.map_cons, List.map_nil, hhex, hbinary]
  rfl

theorem length_columns (line : AssembledLine) :
    (line.columns.flatMap String.toList).length = 45 := by
  have hlengths : line.columns.map (fun part => part.toList.length) =
      line.columns.map String.length :=
    List.map_congr_left fun part _ => String.length_toList
  rw [List.length_flatMap, hlengths, map_length_columns]
  rfl

theorem rtake_row (line : AssembledLine) :
    line.row.toList.rtake 45 = line.columns.flatMap String.toList := by
  rw [List.rtake, toList_row, List.length_append, length_columns, Nat.add_sub_cancel,
    List.drop_left]

theorem rdrop_row (line : AssembledLine) :
    line.row.toList.rdrop 45 = "Line ".toList ++ line.heading := by
  rw [List.rdrop, toList_row, List.length_append, length_columns, Nat.add_sub_cancel,
    List.take_left]

/-- The columns of a word are at the same places in every row. -/
theorem forall₂_column_row (line : AssembledLine) :
    List.Forall₂
      (fun place part => Text.column place.1 place.2 (line.row.toList.rtake 45) = part.toList)
      [(0, 4), (4, 8), (12, 6), (18, 2), (20, 5), (25, 3), (28, 6), (34, 2), (36, 5), (41, 3),
        (44, 1)]
      line.columns := by
  have hcolumns := Text.forall₂_column line.columns [] []
  rw [map_length_columns, List.nil_append, List.append_nil, ← rtake_row] at hcolumns
  exact hcolumns

theorem ne_colon_of_mem_number {line : AssembledLine} :
    ∀ c ∈ (Text.rightAligned 2 (Numeral.decimal line.number)).toList,
      decide (c ≠ ':') = true := by
  have hdigits : ':' ∉ (Numeral.decimal line.number).toList :=
    Numeral.not_mem_decimal (by decide) line.number
  have hnumber := Text.not_mem_rightAligned (by decide) hdigits 2
  intro c hc
  rw [decide_eq_true_iff]
  rintro rfl
  exact hnumber hc

/-- The number of a line ends at the first colon. -/
theorem takeWhile_heading (line : AssembledLine) :
    line.heading.takeWhile (· ≠ ':') =
      (Text.rightAligned 2 (Numeral.decimal line.number)).toList := by
  have hstop : ∀ rest : List Char, (": ".toList ++ rest).takeWhile (· ≠ ':') = [] := fun _ => rfl
  rw [heading, List.takeWhile_append_of_pos ne_colon_of_mem_number, hstop, List.append_nil]

theorem dropWhile_heading (line : AssembledLine) :
    line.heading.dropWhile (· ≠ ':') =
      ": ".toList ++ (Text.leftAligned 20 line.source).toList := by
  have hstop : ∀ rest : List Char,
      (": ".toList ++ rest).dropWhile (· ≠ ':') = ": ".toList ++ rest := fun _ => rfl
  rw [heading, List.dropWhile_append_of_pos ne_colon_of_mem_number, hstop]

/-- A row shows its line, unless the text of the line ends with a space. -/
theorem ofRow?_row {line : AssembledLine} (hlast : line.source.toList.getLast? ≠ some ' ') :
    ListedLine.ofRow? line.row = some line.listed := by
  have hcolumns := forall₂_column_row line
  simp only [columns, List.forall₂_cons] at hcolumns
  obtain ⟨hbitsName, hbits, hwordName, hword, hopcodeName, hopcode, hdestName, hdest,
    hoperandName, hoperand, hend, -⟩ := hcolumns
  have hlabelled : ∀ label ∈ ListedLine.labels,
      Text.column label.1 label.2.length (line.row.toList.rtake 45) = label.2.toList := by
    simp only [ListedLine.labels, List.forall_mem_cons]
    exact ⟨hbitsName, hwordName, hopcodeName, hdestName, hoperandName, hend,
      List.forall_mem_nil _⟩
  have hopcodeBits : (Fields.ofWord line.word).opcode.toNat < 2 ^ 3 := by
    have hword := line.word.toNat_lt
    rw [Fields.toNat_opcode_ofWord]
    omega
  have hdestBits : (Fields.ofWord line.word).dest.toNat < 2 ^ 2 := by
    rw [Fields.toNat_dest_ofWord]
    exact Nat.mod_lt _ (by decide)
  have hoperandBits : (Fields.ofWord line.word).operand.toNat < 2 ^ 3 := by
    rw [Fields.toNat_operand_ofWord]
    exact Nat.mod_lt _ (by decide)
  simp only [ListedLine.ofRow?, hbits, hword, hopcode, hdest, hoperand, rdrop_row,
    Text.dropPrefix?_append, takeWhile_heading, dropWhile_heading,
    Text.dropWhile_rightAligned_decimal, Text.unfilled_leftAligned hlast, guard,
    if_pos hlabelled, Numeral.number?_binary, Numeral.number?_hex, Numeral.number?_decimal,
    Numeral.number?_binary_of_lt hopcodeBits, Numeral.number?_binary_of_lt hdestBits,
    Numeral.number?_binary_of_lt hoperandBits, String.ofList_toList, Option.bind_eq_bind,
    Option.bind_some, Option.pure_def, listed]

theorem row_ne_nil (line : AssembledLine) : line.row.toList ≠ [] := by
  rw [toList_row]
  exact List.cons_ne_nil _ _

/-- A row is one line as far as the text in it is. -/
theorem feed_not_mem_row {line : AssembledLine} (hsource : '\n' ∉ line.source.toList) :
    '\n' ∉ line.row.toList := by
  have hnumber : '\n' ∉ (Text.rightAligned 2 (Numeral.decimal line.number)).toList :=
    Text.not_mem_rightAligned (by decide) (Numeral.not_mem_decimal (by decide) line.number) 2
  have htext : '\n' ∉ (Text.leftAligned 20 line.source).toList :=
    Text.not_mem_leftAligned (by decide) hsource 20
  have hbinary (width : Nat) (byte : UInt8) : '\n' ∉ (Numeral.binary (width + 1) byte).toList :=
    Numeral.not_mem_binary (by decide) width byte
  have hcolumns : ∀ part ∈ line.columns, '\n' ∉ part.toList := by
    simp only [columns, List.forall_mem_cons]
    exact ⟨by decide, hbinary 7 _, by decide, Numeral.not_mem_hex (by decide) line.word,
      by decide, hbinary 2 _, by decide, hbinary 1 _, by decide, hbinary 2 _, by decide,
      List.forall_mem_nil _⟩
  rw [toList_row, heading]
  simp only [List.mem_append, List.mem_flatMap, not_or, not_exists, not_and]
  exact ⟨⟨by decide, hnumber, by decide, htext⟩, hcolumns⟩

end AssembledLine

/-! ## The listing of a text -/

namespace Assembly

/-- The text of a line in the assembly of a text is trimmed, and there is no line feed in it. -/
theorem exists_trim_eq_source {text : String} {line : AssembledLine}
    (hline : line ∈ (ofText text).lines) :
    ∃ chars, '\n' ∉ chars ∧ line.source.toList = Text.trim chars := by
  obtain ⟨index, raw, hraw, _, _, hsource⟩ :=
    (exists_mem_lines_iff 1 _ line.number line.source).mp ⟨line.word, hline⟩
  obtain ⟨chars, hchars, rfl⟩ := List.mem_map.mp (List.mem_of_getElem? hraw)
  refine ⟨chars, Text.feed_not_mem_lines hchars, ?_⟩
  rw [hsource, source, String.toList_ofList, String.toList_ofList]

theorem ofRow?_row_of_mem {text : String} {line : AssembledLine}
    (hline : line ∈ (ofText text).lines) : ListedLine.ofRow? line.row = some line.listed := by
  obtain ⟨chars, _, hsource⟩ := exists_trim_eq_source hline
  apply AssembledLine.ofRow?_row
  rw [hsource]
  exact Text.getLast?_trim_ne (by decide) chars

/-- The rows are the pieces of a listing between its line feeds. -/
theorem splitOn_listing {text : String} (hlines : (ofText text).lines ≠ []) :
    (ofText text).listing.toList.splitOn '\n' = (ofText text).lines.map (·.row.toList) := by
  have hfeed : "\n".toList = ['\n'] := rfl
  rw [listing, String.toList_intercalate, hfeed, List.splitOn_intercalate, List.map_map]
  · rfl
  · intro row hrow
    simp only [List.map_map, List.mem_map, Function.comp_apply] at hrow
    obtain ⟨line, hline, rfl⟩ := hrow
    obtain ⟨chars, hplain, hsource⟩ := exists_trim_eq_source hline
    apply AssembledLine.feed_not_mem_row
    rw [hsource]
    exact fun hmem => hplain (Text.trim_subset chars hmem)
  · simpa using hlines

theorem listing_eq_empty_iff {text : String} :
    (ofText text).listing = "" ↔ (ofText text).lines = [] := by
  constructor
  · intro hempty
    by_contra hlines
    have hrows := splitOn_listing hlines
    obtain ⟨line, rest, hcons⟩ := List.exists_cons_of_ne_nil hlines
    rw [hempty, hcons] at hrows
    exact line.row_ne_nil (List.cons.inj hrows).1.symm
  · intro hlines
    rw [listing, hlines]
    rfl

theorem lines_eq_of_rows_eq {text other : String}
    (hrows : (ofText text).lines.map (·.row.toList) = (ofText other).lines.map (·.row.toList)) :
    (ofText text).lines = (ofText other).lines := by
  have hread (text : String) : ((ofText text).lines.map (·.row.toList)).map
      (fun row => ListedLine.ofRow? (String.ofList row)) =
        (ofText text).lines.map (some ∘ AssembledLine.listed) := by
    rw [List.map_map]
    refine List.map_congr_left fun line hline => ?_
    rw [Function.comp_apply, String.ofList_toList]
    exact ofRow?_row_of_mem hline
  have hlisted := congrArg (List.map fun row => ListedLine.ofRow? (String.ofList row)) hrows
  rw [hread, hread] at hlisted
  exact ((Option.some_injective _).comp AssembledLine.listed_injective).list_map hlisted

theorem lines_eq_of_listing_eq {text other : String}
    (hlisting : (ofText text).listing = (ofText other).listing) :
    (ofText text).lines = (ofText other).lines := by
  by_cases hlines : (ofText text).lines = []
  · have hempty := listing_eq_empty_iff.mpr hlines
    rw [hlisting, listing_eq_empty_iff] at hempty
    rw [hlines, hempty]
  · have hother : (ofText other).lines ≠ [] := by
      rwa [ne_eq, ← listing_eq_empty_iff, ← hlisting, listing_eq_empty_iff]
    apply lines_eq_of_rows_eq
    rw [← splitOn_listing hlines, ← splitOn_listing hother, hlisting]

/-- A listing loses nothing. It is empty when there is no line to list, and otherwise its pieces
between line feeds are the rows of the lines, in order. Each row shows its line, so rows of
different lines differ, and texts with the same listing have the same assembled lines. -/
theorem listing_determines_lines (text other : String) :
    ((ofText text).listing = "" ↔ (ofText text).lines = []) ∧
      ((ofText text).lines ≠ [] → (ofText text).listing.toList.splitOn '\n' =
        (ofText text).lines.map (·.row.toList)) ∧
      (∀ line ∈ (ofText text).lines, ListedLine.ofRow? line.row = some line.listed) ∧
      (∀ line ∈ (ofText text).lines, ∀ listed ∈ (ofText other).lines, line.row = listed.row →
        line = listed) ∧
      ((ofText text).listing = (ofText other).listing →
        (ofText text).lines = (ofText other).lines) := by
  refine ⟨listing_eq_empty_iff, splitOn_listing, fun line => ofRow?_row_of_mem, ?_,
    lines_eq_of_listing_eq⟩
  intro line hline listed hlisted hrow
  apply AssembledLine.listed_injective
  apply Option.some_injective
  rw [← ofRow?_row_of_mem hline, ← ofRow?_row_of_mem hlisted, hrow]

/-- A line that is ended is listed as the one that is not. -/
theorem listing_determines_lines_ended :
    (ofText "NOT R0").lines ≠ [] ∧ (ofText "NOT R0").listing = (ofText " NOT R0\r\n").listing ∧
      (ofText "NOT R0").lines = (ofText " NOT R0\r\n").lines := by
  have hlines : (ofText "NOT R0").lines ≠ [] := by decide
  have hsame : ofText "NOT R0" = ofText " NOT R0\r\n" := by decide
  have hlisting := congrArg listing hsame
  obtain ⟨_, _, _, _, hequal⟩ := listing_determines_lines "NOT R0" " NOT R0\r\n"
  exact ⟨hlines, hlisting, hequal hlisting⟩

/-- The text is wider than its column and looks like the columns behind it. -/
example : ListedLine.ofRow? (AssembledLine.row ⟨100, "NOT R0 ;: -> 00000000 -> 0x00 (op:", 0xE0⟩) =
    some ⟨100, "NOT R0 ;: -> 00000000 -> 0x00 (op:", 0xE0, 0xE0, 7, 0, 0⟩ := by decide

end Assembly

end EightBit
