import EightBit.Failure
import EightBit.File.Access
import EightBit.Rom.Verilog

/-!
# Program files

The text of a program comes from a file, and the memory with a program goes into one.
-/

namespace EightBit

variable {m : Type → Type} [Monad m] [FileAccess m]

/-- The failure to read a program. A file that is not there is a failure of its own. -/
def Failure.ofRead (path : String) : FileError → Failure
  | .missing => .programNotFound path
  | cause => .unreadable path cause

def readProgram (path : String) : ExceptT Failure m String := do
  match ← FileAccess.readText (m := m) path with
  | .ok text => return text
  | .error error => throw (Failure.ofRead path error)

/-- Writes the Verilog module of a memory to a path. -/
def Rom.save (rom : Rom) (path : String) : ExceptT Failure m Unit := do
  match ← FileAccess.writeText (m := m) path rom.verilog with
  | .ok _ => return ()
  | .error error => throw (.unwritable path error)

/-- The same file is found by every path that leads to it. -/
example :
    ((readProgram (m := StateM Directory) ".//p").run.run ⟨[("p", "NOT R0".toUTF8)]⟩).1.toOption =
      some "NOT R0" := by
  decide

end EightBit
