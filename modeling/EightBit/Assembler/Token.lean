import EightBit.Text.Blank

/-!
# Tokens

A comment begins at the earliest `;` or `//` of a line and reaches to its end. What stands before it
is cut at blanks and commas, and the pieces that are not empty are the tokens of the line: the
mnemonic and its operands.
-/

namespace EightBit

/-- A mnemonic or an operand as it is written. -/
abbrev Token := String

namespace Token

/-- The part of a line before its comment. -/
def code : List Char → List Char
  | [] => []
  | ';' :: _ => []
  | '/' :: '/' :: _ => []
  | c :: rest => c :: code rest

def isSeparator (c : Char) : Bool :=
  Text.isBlank c || c == ','

def ofLine (line : String) : List Token :=
  let pieces := (code line.toList).splitOnP isSeparator
  (pieces.filter (· ≠ [])).map String.ofList

example : ofLine "  add r1,, r2 ; r1 := r1 + r2" = ["add", "r1", "r2"] := by decide

/-- A single `/` is a character of its token. -/
example : ofLine "JMP 1/2//3" = ["JMP", "1/2"] ∧ ofLine " //" = [] := by decide

end Token

end EightBit
