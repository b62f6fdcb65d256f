import EightBit.CommandLine.Item

/-!
# Settings

The items of a command line are taken in their order, and the first that is wrong or asks for help
ends it. No switch can be given twice.
-/

namespace EightBit.CommandLine

/-- What has been given to a command. -/
structure Settings where
  program? : Option String := none
  /-- The switches with their values, those without a value with an empty one. -/
  given : List (Switch × String) := []
deriving DecidableEq, Repr

namespace Settings

def value? (settings : Settings) (switch : Switch) : Option String :=
  settings.given.lookup switch

def number? (settings : Settings) (switch : Switch) : Option Nat :=
  (settings.value? switch).bind switch.number?

def has (settings : Settings) (switch : Switch) : Bool :=
  (settings.value? switch).isSome

/-- The settings with one switch more. -/
def give (settings : Settings) (switch : Switch) (text : String) :
    Except Interruption Settings :=
  if settings.has switch then .error (.misuse (.repeated switch))
  else .ok { settings with given := (switch, text) :: settings.given }

def giveProgram (settings : Settings) (grammar : Grammar) (path : String) :
    Except Interruption Settings :=
  if !grammar.takesProgram || settings.program?.isSome then
    .error (.misuse (.extraOperand path))
  else if path = "" then .error (.misuse .noProgram)
  else .ok { settings with program? := some path }

/-- The settings after one more item. -/
def accept (grammar : Grammar) (settings : Settings) : Item → Except Interruption Settings
  | .flag .help => .error .help
  | .flag .version => .error .version
  | .flag switch => settings.give switch ""
  | .setting switch text =>
    if switch.admits text then settings.give switch text
    else .error (.misuse (.badValue switch text))
  | .operand path => settings.giveProgram grammar path
  | .misuse cause => .error (.misuse cause)

def acceptAll (grammar : Grammar) (settings : Settings) (items : List Item) :
    Except Interruption Settings :=
  items.foldlM (accept grammar) settings

end Settings

end EightBit.CommandLine
