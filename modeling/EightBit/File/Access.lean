import EightBit.File.Directory

/-!
# Access to files

What a program needs of the place where it runs: to read the file at a path and to write one. A
directory in memory is such a place.
-/

namespace EightBit

/-- Reading and writing of files by their paths. -/
class FileAccess (m : Type → Type) where
  read : String → m (Except FileError ByteArray)
  write : String → ByteArray → m (Except FileError Unit)

/-- In a directory in memory, what fails leaves the directory as it is. -/
instance : FileAccess (StateM Directory) where
  read path := do
    let directory ← get
    return directory.read path
  write path content := do
    let directory ← get
    match directory.write path content with
    | .ok written =>
      set written
      return .ok ()
    | .error error => return .error error

namespace FileAccess

variable {m : Type → Type} [Monad m] [FileAccess m]

def readText (path : String) : m (Except FileError String) := do
  match ← read path with
  | .ok content =>
    match String.fromUTF8? content with
    | some text => return .ok text
    | none => return .error .notText
  | .error error => return .error error

def writeText (path : String) (text : String) : m (Except FileError Unit) :=
  write path text.toUTF8

end FileAccess

end EightBit
