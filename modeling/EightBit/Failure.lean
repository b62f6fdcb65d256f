import EightBit.File.Error
import EightBit.Rom.Basic

/-!
# Failures

Why a command comes to nothing. What is wrong with a single line of a program is a diagnostic and
not a failure; that there is such a line is one.
-/

namespace EightBit

inductive Failure where
  | programNotFound (path : String)
  | unreadable (path : String) (cause : FileError)
  | unwritable (path : String) (cause : FileError)
  /-- A program with lines that are no instructions. -/
  | assembly (errors : Nat)
  /-- Reference encodings that the assembler does not agree with. -/
  | verification (mismatches : Nat)
  | programTooLarge (cause : ProgramTooLarge)
deriving DecidableEq, Repr

def Failure.message : Failure → String
  | .programNotFound path => "program file " ++ path ++ " not found"
  | .unreadable path cause => "failed to read " ++ path ++ ": " ++ cause.message
  | .unwritable path cause => "failed to write " ++ path ++ ": " ++ cause.message
  | .assembly errors => "assembly failed with " ++ Numeral.decimal errors ++ " error(s)"
  | .verification mismatches =>
    Numeral.decimal mismatches ++ " reference encoding(s) did not match"
  | .programTooLarge cause => cause.message

end EightBit
