import EightBit.Assembler.Diagnostic
import EightBit.Assembler.Mnemonic
import EightBit.Text.Uppercase

/-!
# Statements

A line with at least one token is a statement. Its mnemonic decides what the operands have to be. A
wrong number of operands is reported before anything about the operands themselves, and those are
checked from left to right.

A statement is never without a word: what has none of its own, such as an unknown mnemonic, becomes
a `nop` with a warning.
-/

namespace EightBit

/-- A line as it is understood. -/
inductive Statement where
  | nop
  | moveNumber (dest : Register) (value : Literal)
  | moveRegister (dest source : Register)
  /-- A binary operation or a comparison. -/
  | binary (opcode : Opcode) (dest source : Register)
  /-- A binary operation with a destination of its own, which no word can hold. -/
  | threeOperands (opcode : Opcode)
  | complement (dest : Register)
  | jump (condition : Condition) (target : Literal)
  | unknown (mnemonic : String)
deriving DecidableEq, Repr

/-- The word of a statement with what there is to say about it. -/
structure Encoding where
  word : UInt8
  warnings : List Warning
deriving DecidableEq, Repr

namespace Statement

/-- The register that an operand has to be. -/
def register (operand : Token) : Except LineError Register :=
  match Register.ofToken? operand with
  | some register => .ok register
  | none => .error (.unknownRegister operand)

/-- The number that an operand has to be. -/
def number (operand : Token) : Except LineError Literal :=
  match Literal.ofToken? operand with
  | some literal => .ok literal
  | none => .error (.invalidNumber operand)

/-- The error of a list of operands that is not as long as it has to be. -/
def wrongCount (name : String) (arity : Nat) (operands : List Token) : LineError :=
  match operands[arity]? with
  | some extra => .unexpectedOperand name extra
  | none => .missingOperand name

/-- The statement of a mnemonic, which is written `name`, and its operands. -/
def ofOperands (name : String) (mnemonic : Mnemonic) (operands : List Token) :
    Except LineError Statement :=
  match mnemonic, operands with
  | .nop, [] => .ok .nop
  | .mov, [dest, source] => do
    let dest ← register dest
    if source.toList.head? = some '#' then
      let value ← number source
      return .moveNumber dest value
    else
      let source ← register source
      return .moveRegister dest source
  | .not, [dest] => do
    let dest ← register dest
    return .complement dest
  | .cmp, [dest, source] => do
    let dest ← register dest
    let source ← register source
    return .binary .cmp dest source
  | .binary opcode, [dest, source] => do
    let dest ← register dest
    let source ← register source
    return .binary opcode dest source
  | .binary opcode, [_, _, _] => .ok (.threeOperands opcode)
  | .jump condition, [target] => do
    let target ← number target
    return .jump condition target
  | _, _ => .error (wrongCount name mnemonic.arity operands)

def ofLine (line : String) : Except LineError (Option Statement) :=
  match Token.ofLine line with
  | [] => .ok none
  | first :: operands =>
    let name := Text.upper first
    match Mnemonic.ofName? name with
    | some mnemonic => (ofOperands name mnemonic operands).map some
    | none => .ok (some (.unknown name))

/-- The bits of an immediate number that a word holds. -/
def immediateMask : UInt32 := 0b11

/-- The bits of a jump target that a word holds. -/
def targetMask : UInt32 := 0b111

def registerWord (opcode : Opcode) (dest source : Register) : UInt8 :=
  Instruction.encode (.operation opcode (.ofNat dest) (.ofNat source))

def word : Statement → UInt8
  | .nop | .threeOperands _ | .unknown _ => EightBit.nop
  | .moveNumber dest value =>
    let field := value.masked immediateMask + Instruction.immediateBase
    Instruction.encode (.operation .mov (.ofNat dest) field)
  | .moveRegister dest source => registerWord .mov dest source
  | .binary opcode dest source => registerWord opcode dest source
  | .complement dest => Instruction.encode (.operation .not (.ofNat dest) 0)
  | .jump condition target => Instruction.encode (.jump condition (target.masked targetMask))

/-- What there is to say about the word of a statement. -/
def warnings : Statement → List Warning
  | .nop | .moveRegister .. | .complement _ => []
  | .moveNumber _ value =>
    if value.exceeds immediateMask then
      [.immediateTruncated value.text (value.masked immediateMask)]
    else []
  | .binary opcode dest _ =>
    match opcode.jump? (.ofNat dest) with
    | some condition => [.aliasedAsJump opcode condition]
    | none => []
  | .threeOperands opcode => [.threeOperands opcode]
  | .jump _ target =>
    if target.exceeds targetMask then
      [.targetTruncated target.text (target.masked targetMask)]
    else []
  | .unknown mnemonic => [.unknownInstruction mnemonic]

def encode (statement : Statement) : Encoding where
  word := statement.word
  warnings := statement.warnings

end Statement

/-- The word of a line, if there is an instruction on it. -/
def encodeLine (line : String) : Except LineError (Option Encoding) :=
  (Statement.ofLine line).map (·.map Statement.encode)

example : (encodeLine "mov r0, #6").toOption =
    some (some ⟨0b10100110, [.immediateTruncated "6" 2]⟩) := by decide

example : (encodeLine "OR R3, R1").toOption =
    some (some ⟨0b01111001, [.aliasedAsJump .or .always]⟩) := by decide

end EightBit
