/-!
# File errors

Why a file cannot be read or written.
-/

namespace EightBit

inductive FileError where
  /-- A name on the way, or the last one, is not there. -/
  | missing
  /-- The path leads to a directory and not to a file. -/
  | isDirectory
  /-- The path goes on behind a file. -/
  | notDirectory
  /-- The bytes of the file are not the encoding of a text. -/
  | notText
  /-- Anything else, in the words of the system. -/
  | system (reason : String)
deriving DecidableEq, Repr

def FileError.message : FileError → String
  | .missing => "No such file or directory (os error 2)"
  | .isDirectory => "Is a directory (os error 21)"
  | .notDirectory => "Not a directory (os error 20)"
  | .notText => "stream did not contain valid UTF-8"
  | .system reason => reason

end EightBit
