import EightBit.CommandLine.Perform

/-!
# The program

The command line on the files of the system.
-/

namespace EightBit

/-- The number of a system error, which some calls return with its sign changed. -/
def systemNumber (code : UInt32) : UInt32 :=
  if code < 0x80000000 then code else 0 - code

def FileError.ofSystem (error : IO.Error) : FileError :=
  match error with
  | .noFileOrDirectory .. => .missing
  | .inappropriateType _ code _ =>
    match (systemNumber code).toNat with
    | 20 => .notDirectory
    | 21 => .isDirectory
    | _ => .system (toString error)
  | _ => .system (toString error)

instance : FileAccess IO where
  read path := do
    try
      return .ok (← IO.FS.readBinFile path)
    catch error =>
      return .error (.ofSystem error)
  write path content := do
    try
      IO.FS.writeBinFile path content
      return .ok ()
    catch error =>
      return .error (.ofSystem error)

end EightBit

/-- Does what the arguments say and ends with the exit code of that. -/
def main (arguments : List String) : IO UInt32 := do
  let outcome ← EightBit.CommandLine.perform (m := IO) arguments
  IO.eprint outcome.errorOutput
  IO.print outcome.output
  return outcome.exitCode
