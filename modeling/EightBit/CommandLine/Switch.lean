import EightBit.Numeral

/-!
# Switches

What can be asked for by a name with dashes in front. Some switches take a value, a path or a
number, and most can only be given to some commands.
-/

namespace EightBit.CommandLine

inductive Switch where
  | help
  | version
  /-- Asks for a log, in front of the name of a command or behind it. -/
  | verbose
  /-- Where the Verilog module goes. -/
  | output
  /-- How many instructions a run may execute. -/
  | budget
  /-- The address at which a run halts. -/
  | haltAddress
  /-- How many instructions a run executes before that address can halt it. -/
  | haltAfter
  /-- Halts a run at a jump to its own address. -/
  | haltSelfLoop
  /-- Shows the machine before each instruction of a run. -/
  | trace
deriving DecidableEq, Repr

/-- A number below a limit, in decimal with at most one sign. The only number below zero that there
is room for is `-0`. -/
def natBelow? (limit : Nat) (text : String) : Option Nat :=
  let number? := fun digits => (Numeral.digits? 10 digits).map (Numeral.ofDigits 10)
  let value? :=
    match text.toList with
    | '+' :: digits => number? digits
    | '-' :: digits => (number? digits).filter (· = 0)
    | digits => number? digits
  value?.filter (· < limit)

example : ["007", "+15", "-0"].map (natBelow? 16) = [some 7, some 15, some 0] := by decide

example : ["16", "-1", "++1", "+", "", " 1"].map (natBelow? 16) =
    [none, none, none, none, none, none] := by
  decide

namespace Switch

def name : Switch → String
  | .help => "help"
  | .version => "version"
  | .verbose => "verbose"
  | .output => "output"
  | .budget => "max-cycles"
  | .haltAddress => "halt-pc"
  | .haltAfter => "halt-after"
  | .haltSelfLoop => "halt-self-loop"
  | .trace => "trace"

def letter? : Switch → Option Char
  | .help => some 'h'
  | .version => some 'V'
  | .verbose => some 'v'
  | .output => some 'o'
  | .budget | .haltAddress | .haltAfter | .haltSelfLoop | .trace => none

def takesValue : Switch → Bool
  | .output | .budget | .haltAddress | .haltAfter => true
  | .help | .version | .verbose | .haltSelfLoop | .trace => false

/-- The number that a text stands for as the value of the switch. -/
def number? : Switch → String → Option Nat
  | .budget, text | .haltAfter, text => natBelow? UInt32.size text
  | .haltAddress, text => natBelow? 16 text
  | _, _ => none

/-- Whether a text can be the value of the switch. -/
def admits (switch : Switch) (text : String) : Bool :=
  match switch with
  | .output => text != ""
  | _ => (switch.number? text).isSome

end Switch

end EightBit.CommandLine
