/-!
# Lines

A line ends at a line feed, and one carriage return directly before the line feed belongs to the
ending. The last line need not be ended: what follows the last line feed is a line unless it is
empty. A carriage return anywhere else is a character of its line.
-/

namespace EightBit.Text

/-- A line without the carriage return that belongs to its ending. -/
def withoutReturn (line : List Char) : List Char :=
  if line.getLast? = some '\r' then line.dropLast else line

/-- The lines of a text, without their endings. -/
def lines (text : List Char) : List (List Char) :=
  let pieces := text.splitOn '\n'
  pieces.dropLast.map withoutReturn ++ (pieces.getLast?.filter (· ≠ [])).toList

/-- The text in which a line feed ends every line. -/
def unlines (lines : List String) : String :=
  String.join (lines.map (· ++ "\n"))

example : lines ['a', '\r', '\n', '\n', 'b'] = [['a'], [], ['b']] := by decide

/-- The last line keeps a carriage return that no line feed follows. -/
example : lines ['a', '\n', 'b', '\r'] = [['a'], ['b', '\r']] ∧ lines ['\n'] = [[]] := by decide

end EightBit.Text
