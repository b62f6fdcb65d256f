import EightBit.Assembler.Reference
import EightBit.CommandLine.Report
import EightBit.File.Program
import EightBit.Machine.Trace

/-!
# Performing commands

A command reads its program, assembles it and puts it into a memory before it writes a file or has
any output, so a command that fails on the way has none. What it remarks on the way is a log of the
assembling, the diagnostics and then the rest of the log.
-/

namespace EightBit

/-- The memory with an assembled program. A line with an error counts before too many words. -/
def Assembly.rom (assembly : Assembly) : Except Failure Rom :=
  if assembly.hasErrors then .error (.assembly assembly.errors.length)
  else (Rom.ofProgram assembly.bytes).mapError .programTooLarge

namespace CommandLine

def summaryLines (summary : Summary) : List String :=
  let register := fun number =>
    Instruction.registerName number.val ++ " = " ++ Numeral.hex (summary.state.register number)
  ["PC = " ++ Numeral.decimal summary.state.pc.toNat,
   ", ".intercalate ((List.finRange 4).map register),
   "zero_flag = " ++ Numeral.bit summary.state.zero,
   "Total cycles: " ++ Numeral.decimal summary.cycles ++ " (" ++ summary.stop.name ++ ")"]

/-- A run of a program from the start: its trace, which is empty if it is not traced, and how it
ends. -/
def observedRun (options : RunOptions) (traced : Bool) (rom : Rom) : List String × Summary :=
  if traced then
    let run := (Machine.start rom).tracedRun options
    (run.gathered.toList, run.summary)
  else ([], ((Machine.start rom).run options).summary)

def generatedLines (output : String) (bytes : List UInt8) : List String :=
  ["Generated " ++ output ++ " with " ++ Numeral.decimal bytes.length ++ " instructions",
   "Hex dump: " ++ hexDump bytes]

def referenceLine (reference : Reference) : String :=
  let mark := if reference.agrees then "✓" else "✗"
  let actual := (reference.actual?.map (Numeral.binary 8)).getD "--------"
  mark ++ " " ++ Text.leftAligned 12 reference.line ++ " -> " ++ actual ++
    " (expected: " ++ Numeral.binary 8 reference.expected ++ ")"

def verification (references : List Reference) : Report where
  output := references.map referenceLine
  remarks := []
  failure? :=
    let mismatches := references.countP (!·.agrees)
    if mismatches = 0 then none else some (.verification mismatches)

variable {m : Type → Type} [Monad m] [FileAccess m]

/-- What a program that has been read gives rise to, in the order of the remarks: the log of the
assembling, the diagnostics, the listing in the log, and what is told after that. -/
def programRemarks (text : String) (closing : List Event) : List Remark :=
  let assembly := Assembly.ofText text
  (Event.ofText text).map .event ++ assembly.diagnostics.map (fun diagnostic =>
    .line diagnostic.message) ++ (.listed assembly :: closing).map .event

/-- The report on a program. Its lines of output, and what is told last, come from what `use` does
with the program and the memory that it is in. -/
def onProgram (path : String)
    (use : Assembly → Rom → ExceptT Failure m (List String × List Event)) : m Report := do
  match ← (readProgram path).run with
  | .error failure => return ⟨[], [], some failure⟩
  | .ok text =>
    let assembly := Assembly.ofText text
    let result ← ExceptT.run do
      let rom ← ExceptT.mk (pure assembly.rom)
      use assembly rom
    match result with
    | .ok (output, closing) => return ⟨output, programRemarks text closing, none⟩
    | .error failure => return ⟨[], programRemarks text [], some failure⟩

def Command.perform : Command → m Report
  | .assemble program output =>
    onProgram program fun assembly rom => do
      rom.save output
      return (generatedLines output assembly.bytes, [])
  | .run program options traced =>
    onProgram program fun _ rom => do
      let (trace, summary) := observedRun options traced rom
      return (trace ++ summaryLines summary, [.finished summary])
  | .verify => return verification Reference.all

def perform (arguments : List String) : m Outcome := do
  match Invocation.ofArguments arguments with
  | .ok ⟨command, verbose⟩ => return (← command.perform).outcome verbose
  | .error interruption => return interruption.outcome

end CommandLine

end EightBit
