import EightBit.Assembler.Listing
import EightBit.Machine.Run

/-!
# Log

The assembler and the machine tell what they do while they do it. What is told at a high enough
level is written to the error output: with `-v` all that is listed here, and without it nothing, as
long as the environment does not ask for more. An event that is written has a time and other
trappings, which are up to what writes it.
-/

namespace EightBit

/-- The word of a line in binary, in hexadecimal and field by field. -/
def AssembledLine.wordText (line : AssembledLine) : String :=
  let fields := Fields.ofWord line.word
  Numeral.binary 8 line.word ++
    " -> 0x" ++ Numeral.hex line.word ++
    " (op:" ++ Numeral.binary 3 fields.opcode ++
    " dest:" ++ Numeral.binary 2 fields.dest ++
    " src:" ++ Numeral.binary 3 fields.operand ++ ")"

/-- A row of a listing ends as the log tells of its line. -/
theorem AssembledLine.row_eq (line : AssembledLine) :
    line.row = "Line " ++ Text.rightAligned 2 (Numeral.decimal line.number) ++ ": " ++
      Text.leftAligned 20 line.source ++ " -> " ++ line.wordText := by
  unfold row wordText
  simp only [String.append_assoc]

namespace CommandLine

/-- How much an event matters. -/
inductive Level where
  | debug
  | info
  | warning
deriving DecidableEq, Repr, Ord

def Level.name : Level → String
  | .debug => "DEBUG"
  | .info => "INFO"
  | .warning => "WARN"

/-- What is told. That an instruction has been executed is told at a level that no command line asks
for, and is left out. -/
inductive Event where
  /-- There is something to say about a line. -/
  | diagnosed (diagnostic : Diagnostic)
  /-- A line has its word. -/
  | assembled (line : AssembledLine)
  /-- All lines have been assembled, and what there is to say about them has been said. -/
  | listed (assembly : Assembly)
  /-- A run has ended. -/
  | finished (summary : Summary)
deriving DecidableEq, Repr

namespace Event

def level : Event → Level
  | .diagnosed _ | .assembled _ | .listed _ => .debug
  | .finished _ => .info

def message : Event → String
  | .diagnosed diagnostic => diagnostic.message
  | .assembled line => line.wordText
  | .listed assembly => "listing:\n" ++ assembly.listing
  | .finished _ => "run finished"

/-- What is told beside the message, by name. -/
def fields : Event → List (String × String)
  | .diagnosed _ | .listed _ => []
  | .assembled line => [("line", Numeral.decimal line.number), ("source", line.source)]
  | .finished summary =>
    [("cycles", Numeral.decimal summary.cycles), ("stop", summary.stop.name),
     ("pc", Numeral.decimal summary.state.pc.toNat)]

/-- What is told while a line is assembled. Its diagnostics come before its word. -/
def ofLine (number : Nat) (line : String) : List Event :=
  let assembly := Assembly.ofLine number line
  assembly.diagnostics.map .diagnosed ++ assembly.lines.map .assembled

/-- What is told while lines that are numbered from `first` on are assembled. -/
def ofLinesFrom (first : Nat) : List String → List Event
  | [] => []
  | line :: rest => ofLine first line ++ ofLinesFrom (first + 1) rest

/-- What is told while a text is assembled. -/
def ofText (text : String) : List Event :=
  ofLinesFrom 1 ((Text.lines text.toList).map String.ofList)

/-- The level from which on an event is shown. -/
def threshold (verbose : Bool) : Level :=
  if verbose then .debug else .warning

def isShown (verbose : Bool) (event : Event) : Bool :=
  (compare event.level (threshold verbose)).isGE

/-- With `-v` every event is shown, and without it none. -/
@[simp] theorem isShown_eq (verbose : Bool) (event : Event) : event.isShown verbose = verbose := by
  cases verbose <;> cases event <;> rfl

example : (ofText "MOV R0, #6\n\nNOT R0").map (·.message) =
    ["line 1: warning: immediate value 6 truncated to 2 (MOV R0, #6)",
     "10100110 -> 0xA6 (op:101 dest:00 src:110)",
     "11100000 -> 0xE0 (op:111 dest:00 src:000)"] := by
  decide

end Event

/-- How events are written, by what stands before them in the error output. -/
structure Log where
  text : (place : Nat) → Event → String

/-- The texts of events of which the first stands at a place. -/
def Log.texts (log : Log) (place : Nat) (events : List Event) : List String :=
  (events.zipIdx place).map fun (event, place) => log.text place event

/-- The level of an event, its message and the rest of it, and no time. -/
def Log.plain : Log where
  text _ event :=
    let fields := event.fields.map fun (name, value) => name ++ "=" ++ value
    " ".intercalate (event.level.name :: event.message :: fields)

end CommandLine

end EightBit
