import EightBit.CommandLine.Switch

/-!
# Misuse

What can be wrong with a command line before anything is done. Which arguments are misused, and the
exit code of that, belong to the interface of the program. The wording of the messages does not: it
is this library's own.
-/

namespace EightBit.CommandLine

/-- Why a list of arguments is no command. -/
inductive Misuse where
  | noCommand
  | unknownCommand (name : String)
  | unknownSwitch (text : String)
  | noValue (switch : Switch)
  | unwantedValue (switch : Switch)
  | badValue (switch : Switch) (text : String)
  | repeated (switch : Switch)
  | noProgram
  | extraOperand (text : String)
  /-- Two switches that exclude each other. -/
  | together (first second : Switch)
  /-- A switch without the one that gives it a meaning. -/
  | without (switch needed : Switch)
deriving DecidableEq, Repr

def Switch.text (switch : Switch) : String :=
  "--" ++ switch.name

/-- A text of this library's own, which nothing may rely on. -/
def Misuse.message : Misuse → String
  | .noCommand => "a command is missing"
  | .unknownCommand name => "there is no command '" ++ name ++ "'"
  | .unknownSwitch text => "there is no option '" ++ text ++ "' here"
  | .noValue switch => switch.text ++ " needs a value"
  | .unwantedValue switch => switch.text ++ " takes no value"
  | .badValue switch text => "'" ++ text ++ "' is no value for " ++ switch.text
  | .repeated switch => switch.text ++ " is given twice"
  | .noProgram => "the path of a program is missing"
  | .extraOperand text => "unexpected argument '" ++ text ++ "'"
  | .together first second => first.text ++ " cannot be used with " ++ second.text
  | .without switch needed => switch.text ++ " needs " ++ needed.text

/-- Why no command comes of a list of arguments. -/
inductive Interruption where
  | help
  | version
  | misuse (cause : Misuse)
deriving DecidableEq, Repr

end EightBit.CommandLine
