import EightBit.CommandLine.Misuse

/-!
# The items of a command line

An argument is a switch by its name, `--name` or `--name=value`, one or more switches by their
letters, `-vo` or `-vovalue` or `-vo=value`, or an operand. A switch that takes a value and has none
in its own argument takes the next one, which must not look like a switch. Behind `--` every
argument is an operand.
-/

namespace EightBit.CommandLine

/-- An argument by its form. -/
inductive Argument where
  /-- The argument `--`. -/
  | terminator
  | named (name : String) (value? : Option String)
  | lettered (letters : List Char)
  | plain (text : String)
deriving DecidableEq, Repr

/-- The form of an argument. A single dash is an operand. -/
def Argument.ofText (text : String) : Argument :=
  match text.toList with
  | ['-', '-'] => .terminator
  | '-' :: '-' :: rest =>
    let name := String.ofList (rest.takeWhile (· ≠ '='))
    match rest.dropWhile (· ≠ '=') with
    | [] => .named name none
    | _ :: value => .named name (some (String.ofList value))
  | '-' :: letter :: rest => .lettered (letter :: rest)
  | _ => .plain text

/-- What the arguments say, one thing at a time. -/
inductive Item where
  | flag (switch : Switch)
  | setting (switch : Switch) (text : String)
  | operand (text : String)
  | misuse (cause : Misuse)
deriving DecidableEq, Repr

structure Grammar where
  switches : List Switch
  /-- Whether the command works on the program at a path. -/
  takesProgram : Bool
deriving DecidableEq, Repr

namespace Grammar

def named? (grammar : Grammar) (name : String) : Option Switch :=
  grammar.switches.find? (·.name == name)

def lettered? (grammar : Grammar) (letter : Char) : Option Switch :=
  grammar.switches.find? (·.letter? == some letter)

/-- The items of a switch by its name, and the switch if its value is still to come. -/
def namedItems (grammar : Grammar) (name : String) (value? : Option String) :
    List Item × Option Switch :=
  match grammar.named? name with
  | none => ([.misuse (.unknownSwitch ("--" ++ name))], none)
  | some switch =>
    match switch.takesValue, value? with
    | true, some value => ([.setting switch value], none)
    | true, none => ([], some switch)
    | false, some _ => ([.misuse (.unwantedValue switch)], none)
    | false, none => ([.flag switch], none)

/-- The items of switches by their letters, and the last of them if its value is still to come. -/
def letteredItems (grammar : Grammar) : List Char → List Item × Option Switch
  | [] => ([], none)
  | letter :: rest =>
    match grammar.lettered? letter with
    | none => ([.misuse (.unknownSwitch (String.ofList ['-', letter]))], none)
    | some switch =>
      if switch.takesValue then
        match rest with
        | [] => ([], some switch)
        | '=' :: value | value => ([.setting switch (String.ofList value)], none)
      else
        let (items, waiting?) := grammar.letteredItems rest
        (.flag switch :: items, waiting?)

/-- The items of an argument, and a switch if its value is still to come. -/
def argumentItems (grammar : Grammar) : Argument → List Item × Option Switch
  | .terminator => ([], none)
  | .named name value? => grammar.namedItems name value?
  | .lettered letters => grammar.letteredItems letters
  | .plain text => ([.operand text], none)

/-- The items of a list of arguments, when the value of a switch may be still to come. -/
def itemsAfter (grammar : Grammar) : Option Switch → List String → List Item
  | none, [] => []
  | some switch, [] => [.misuse (.noValue switch)]
  | some switch, text :: rest =>
    match Argument.ofText text with
    | .plain value => .setting switch value :: grammar.itemsAfter none rest
    | _ => [.misuse (.noValue switch)]
  | none, text :: rest =>
    match Argument.ofText text with
    | .terminator => rest.map .operand
    | argument =>
      let (items, waiting?) := grammar.argumentItems argument
      items ++ grammar.itemsAfter waiting? rest

def items (grammar : Grammar) (arguments : List String) : List Item :=
  grammar.itemsAfter none arguments

example : items ⟨[.verbose, .output], true⟩ ["-vo=a", "-", "--output", "b", "--", "-v"] =
    [.flag .verbose, .setting .output "a", .operand "-", .setting .output "b", .operand "-v"] := by
  decide

example : items ⟨[.verbose, .output], true⟩ ["-o", "-v"] = [.misuse (.noValue .output)] := by
  decide

end Grammar

end EightBit.CommandLine
