import EightBit.Text.UppercaseTable

/-!
# Upper case

The upper-case form of a text, each character for itself. A character may become several: `ß`
becomes `SS`.
-/

namespace EightBit.Text

/-- The code point that `code` maps to, if it is one of the run's. -/
def CaseRun.image? (run : CaseRun) (code : Nat) : Option Nat :=
  if run.first ≤ code ∧ code ≤ run.last ∧ (code - run.first) % run.step = 0 then
    some (run.target + (code - run.first))
  else none

/-- The upper-case form of one character, the character itself if it has no other. -/
def upperChar (c : Char) : List Char :=
  match caseRuns.findSome? (·.image? c.toNat) with
  | some code => [Char.ofNat code]
  | none =>
    match caseExpansions.lookup c.toNat with
    | some codes => codes.map Char.ofNat
    | none => [c]

def upper (s : String) : String :=
  String.ofList (s.toList.flatMap upperChar)

example : upper "mov" = "MOV" := by decide

example : upper "Straße" = "STRASSE" := by decide

/-- The letter `ǆ` has an upper-case form and a title-case form, and both map to the former. -/
example : upper "ǆǅ" = "ǄǄ" := by decide

end EightBit.Text
