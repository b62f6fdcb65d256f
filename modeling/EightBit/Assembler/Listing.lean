import EightBit.Assembler.Assembly
import EightBit.Text.Column

/-!
# Listings

One row for each assembled line: its number and text, and its word in binary, in hexadecimal and
field by field.
-/

namespace EightBit

def AssembledLine.row (line : AssembledLine) : String :=
  let fields := Fields.ofWord line.word
  "Line " ++ Text.rightAligned 2 (Numeral.decimal line.number) ++
    ": " ++ Text.leftAligned 20 line.source ++
    " -> " ++ Numeral.binary 8 line.word ++
    " -> 0x" ++ Numeral.hex line.word ++
    " (op:" ++ Numeral.binary 3 fields.opcode ++
    " dest:" ++ Numeral.binary 2 fields.dest ++
    " src:" ++ Numeral.binary 3 fields.operand ++ ")"

/-- The rows of all lines, separated by line feeds. -/
def Assembly.listing (assembly : Assembly) : String :=
  "\n".intercalate (assembly.lines.map (·.row))

example : AssembledLine.row ⟨3, "MOV R0, #2", 0xA6⟩ =
    "Line  3: MOV R0, #2           -> 10100110 -> 0xA6 (op:101 dest:00 src:110)" := by decide

end EightBit
