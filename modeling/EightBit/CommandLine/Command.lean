import EightBit.CommandLine.Settings
import EightBit.Machine.Run

/-!
# Commands

A command line holds switches, the name of a command, and what is given to that command. The switch
for a log may stand on either side of the name.
-/

namespace EightBit.CommandLine

inductive Command where
  /-- Writes the memory with a program as a Verilog module. -/
  | assemble (program output : String)
  /-- Runs a program. -/
  | run (program : String) (options : RunOptions) (traced : Bool)
  /-- Compares the assembler with the reference encodings. -/
  | verify
deriving DecidableEq, Repr

inductive CommandName where
  | assemble
  | run
  | verify
deriving DecidableEq, Repr

namespace CommandName

def ofText? : String → Option CommandName
  | "assemble" => some .assemble
  | "run" => some .run
  | "verify" => some .verify
  | _ => none

def grammar : CommandName → Grammar
  | .assemble => ⟨[.help, .verbose, .output], true⟩
  | .run => ⟨[.help, .verbose, .budget, .haltAddress, .haltAfter, .haltSelfLoop, .trace], true⟩
  | .verify => ⟨[.help, .verbose], false⟩

end CommandName

namespace Settings

/-- The program that has to be given. -/
def program (settings : Settings) : Except Interruption String :=
  match settings.program? with
  | some path => .ok path
  | none => .error (.misuse .noProgram)

/-- The file that the Verilog module goes into. -/
def output (settings : Settings) : String :=
  (settings.value? .output).getD "instruction_memory.v"

/-- When a run is to halt. An address and a loop exclude each other, and without either there is
nothing to wait for. -/
def halt (settings : Settings) : Except Interruption Halt :=
  if settings.has .haltSelfLoop then
    if settings.has .haltAddress then .error (.misuse (.together .haltAddress .haltSelfLoop))
    else .ok .selfLoop
  else
    match settings.number? .haltAddress with
    | some address =>
      .ok (.atAddress (.ofNat address) ((settings.number? .haltAfter).getD 0))
    | none =>
      if settings.has .haltAfter then .error (.misuse (.without .haltAfter .haltAddress))
      else .ok .never

def runOptions (settings : Settings) : Except Interruption RunOptions := do
  let halt ← settings.halt
  match settings.number? .budget with
  | some budget => return { budget, halt }
  | none => return { halt }

def command (settings : Settings) : CommandName → Except Interruption Command
  | .assemble => do
    let program ← settings.program
    return .assemble program settings.output
  | .run => do
    let program ← settings.program
    let options ← settings.runOptions
    return .run program options (settings.has .trace)
  | .verify => .ok .verify

end Settings

/-- A command, and whether there is to be a log of it. -/
structure Invocation where
  command : Command
  verbose : Bool
deriving DecidableEq, Repr

namespace Invocation

/-- What may stand in front of the name of a command. -/
def outerGrammar : Grammar :=
  ⟨[.help, .version, .verbose], false⟩

/-- The answer to the command `help`, which may be given one name of a command, its own included. -/
def helpOn : List String → Interruption
  | [] => .help
  | [name] =>
    if name = "help" ∨ (CommandName.ofText? name).isSome then .help
    else .misuse (.unknownCommand name)
  | _ :: name :: _ => .misuse (.unknownCommand name)

/-- The command with a name and what is given to it, behind the settings `outer`. -/
def ofName (outer : Settings) (name : String) (arguments : List String) :
    Except Interruption Invocation :=
  match CommandName.ofText? name with
  | some commandName => do
    let grammar := commandName.grammar
    let settings ← ({} : Settings).acceptAll grammar (grammar.items arguments)
    let command ← settings.command commandName
    return ⟨command, outer.has .verbose || settings.has .verbose⟩
  | none =>
    if name = "help" then .error (helpOn arguments)
    else .error (.misuse (.unknownCommand name))

/-- The command of a list of arguments, when some switches have been given in front of them. -/
def ofArgumentsAfter (outer : Settings) : List String → Except Interruption Invocation
  | [] => .error (.misuse .noCommand)
  | text :: rest =>
    match Argument.ofText text with
    | .terminator => .error (.misuse .noCommand)
    | .plain name => ofName outer name rest
    | argument => do
      let outer ← outer.acceptAll outerGrammar (outerGrammar.argumentItems argument).1
      ofArgumentsAfter outer rest

def ofArguments (arguments : List String) : Except Interruption Invocation :=
  ofArgumentsAfter {} arguments

example : [["-v", "verify"], ["verify", "--verbose"]].map (fun arguments =>
    (ofArguments arguments).toOption) = [some ⟨.verify, true⟩, some ⟨.verify, true⟩] := by
  decide

end Invocation

namespace Command

/-- The command of a list of arguments, with a log or without. -/
def ofArguments (arguments : List String) : Except Interruption Command :=
  (Invocation.ofArguments arguments).map (·.command)

example : (ofArguments ["-v", "run", "--halt-pc=3", "p", "--max-cycles", "+7"]).toOption =
    some (.run "p" ⟨7, .atAddress 3 0⟩ false) := by
  decide

/-- With a loop to halt at there is something to wait for, and waiting changes nothing. -/
example : (ofArguments ["run", "p", "--halt-after", "9", "--halt-self-loop"]).toOption =
    some (.run "p" ⟨50, .selfLoop⟩ false) := by
  decide

end Command

end EightBit.CommandLine
