import EightBit.CommandLine.Command
import EightBit.CommandLine.Log
import EightBit.Failure

/-!
# Reports

What a command says when it is done: lines of output, the remarks that do not belong to the output,
in the order in which they are made, and the failure if there is one.
-/

namespace EightBit.CommandLine

/-- What goes to the error output: a line of the command itself, or an event of its log. -/
inductive Remark where
  | line (text : String)
  | event (event : Event)
deriving DecidableEq, Repr

namespace Remark

def text (log : Log) (place : Nat) : Remark → String
  | .line written => written
  | .event told => log.text place told

/-- The texts of remarks of which the first stands at a place. -/
def texts (log : Log) (place : Nat) (remarks : List Remark) : List String :=
  (remarks.zipIdx place).map fun (remark, place) => remark.text log place

def isShown (verbose : Bool) : Remark → Bool
  | .line _ => true
  | .event told => told.isShown verbose

end Remark

structure Report where
  output : List String
  remarks : List Remark
  failure? : Option Failure
deriving DecidableEq, Repr

/-- What is left of a command when it has ended, besides files. -/
structure Outcome where
  output : String
  remarks : List Remark
  exitCode : UInt32
deriving DecidableEq, Repr

/-- The text of the error output. How its log is written is not up to the command. -/
def Outcome.errorOutput (outcome : Outcome) (log : Log := .plain) : String :=
  Text.unlines (Remark.texts log 0 outcome.remarks)

def failureLine (failure : Failure) : String :=
  "Error: " ++ failure.message

/-- The failure is the last remark. -/
def Report.outcome (report : Report) (verbose : Bool) : Outcome where
  output := Text.unlines report.output
  remarks := report.remarks.filter (·.isShown verbose) ++
    (report.failure?.map fun failure => .line (failureLine failure)).toList
  exitCode := if report.failure?.isSome then 1 else 0

def versionLine : String :=
  "simple8 0.1.0"

/-- The answer to a question for help. Its wording is this library's own, as that of the messages
about misuse is. -/
def helpLines : List String :=
  ["Assembler and simulator for the simple8 instruction set",
   "",
   "Usage:",
   "  simple8 [-v] assemble PROGRAM [-o FILE]",
   "  simple8 [-v] run PROGRAM [--max-cycles N] [--halt-pc ADDRESS [--halt-after N]]",
   "                           [--halt-self-loop] [--trace]",
   "  simple8 [-v] verify",
   "  simple8 help | --help | --version"]

def Interruption.outcome : Interruption → Outcome
  | .help => ⟨Text.unlines helpLines, [], 0⟩
  | .version => ⟨Text.unlines [versionLine], [], 0⟩
  | .misuse cause => ⟨"", [.line ("error: " ++ cause.message)], 2⟩

end EightBit.CommandLine
