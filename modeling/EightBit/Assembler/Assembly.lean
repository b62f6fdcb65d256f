import EightBit.Assembler.Statement
import EightBit.Text.Lines

/-!
# Assembling a program

Each line that has an instruction gives one word, in the order of the lines. A line with an error
gives a `nop`, so that no other word moves to another address.
-/

namespace EightBit

/-- A line with its number, from `1` on, its text and its word. -/
structure AssembledLine where
  number : Nat
  source : String
  word : UInt8
deriving DecidableEq, Repr

/-- The lines of a program that gave a word, and what there is to say about them. -/
structure Assembly where
  lines : List AssembledLine
  diagnostics : List Diagnostic
deriving DecidableEq, Repr

namespace Assembly

instance : EmptyCollection Assembly where
  emptyCollection := ⟨[], []⟩

/-- One assembly followed by another. -/
instance : Append Assembly where
  append a b := ⟨a.lines ++ b.lines, a.diagnostics ++ b.diagnostics⟩

/-- The assembly of one line. Blanks at its ends are no part of its text. -/
def ofLine (number : Nat) (line : String) : Assembly :=
  let source := String.ofList (Text.trim line.toList)
  match encodeLine source with
  | .ok none => ∅
  | .ok (some encoding) =>
    ⟨[⟨number, source, encoding.word⟩],
      encoding.warnings.map fun warning => ⟨number, source, .warning warning⟩⟩
  | .error error => ⟨[⟨number, source, nop⟩], [⟨number, source, .error error⟩]⟩

/-- The assembly of lines that are numbered from `first` on. -/
def ofLinesFrom (first : Nat) : List String → Assembly
  | [] => ∅
  | line :: rest => ofLine first line ++ ofLinesFrom (first + 1) rest

def ofLines (lines : List String) : Assembly :=
  ofLinesFrom 1 lines

def ofText (text : String) : Assembly :=
  ofLines ((Text.lines text.toList).map String.ofList)

def bytes (assembly : Assembly) : List UInt8 :=
  assembly.lines.map (·.word)

def errors (assembly : Assembly) : List Diagnostic :=
  assembly.diagnostics.filter (·.isError)

def warnings (assembly : Assembly) : List Diagnostic :=
  assembly.diagnostics.filter (!·.isError)

def hasErrors (assembly : Assembly) : Bool :=
  assembly.diagnostics.any (·.isError)

@[simp] theorem lines_empty : (∅ : Assembly).lines = [] := rfl

@[simp] theorem diagnostics_empty : (∅ : Assembly).diagnostics = [] := rfl

@[simp] theorem lines_append (a b : Assembly) : (a ++ b).lines = a.lines ++ b.lines := rfl

@[simp] theorem diagnostics_append (a b : Assembly) :
    (a ++ b).diagnostics = a.diagnostics ++ b.diagnostics := rfl

example : (ofText "MOV R0, #2 ; two\r\n\nADD R0 ; of what?\nNOT R0").bytes = [0xA6, 0, 0xE0] := by
  decide

end Assembly

end EightBit
