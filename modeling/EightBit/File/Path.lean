/-!
# Paths

A path is a list of names between slashes. Slashes side by side count as one. A slash in front makes
the path begin at the root instead of the current directory, and a slash at the end says that the
path leads to a directory.
-/

namespace EightBit

/-- A path by its parts. -/
structure Path where
  /-- Whether the path begins at the root. -/
  absolute : Bool
  /-- The names between the slashes. -/
  names : List String
  /-- Whether the path ends with a slash. -/
  closed : Bool
deriving DecidableEq, Repr

namespace Path

/-- The path that a text stands for. The empty text stands for none. -/
def ofText? (text : String) : Option Path :=
  let chars := text.toList
  if chars = [] then none
  else
    some
      { absolute := chars.head? == some '/'
        names := ((chars.splitOn '/').filter (· ≠ [])).map String.ofList
        closed := chars.getLast? == some '/' }

example : ofText? "d//p/" = some ⟨false, ["d", "p"], true⟩ := by decide

example : ofText? "/" = some ⟨true, [], true⟩ ∧ ofText? "" = none := by decide

end Path

end EightBit
