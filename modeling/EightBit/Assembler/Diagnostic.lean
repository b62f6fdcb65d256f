import EightBit.Assembler.Operand

/-!
# Diagnostics

What the assembler has to say about a line. An error means that the line is no instruction. A
warning means that it is one, and that the word may not do what the line seems to say.
-/

namespace EightBit

/-- Why a line is no instruction. -/
inductive LineError where
  | unknownRegister (token : Token)
  | missingOperand (mnemonic : String)
  | unexpectedOperand (mnemonic : String) (operand : Token)
  | invalidNumber (token : Token)
deriving DecidableEq, Repr

/-- How the word of a line differs from what the line says. -/
inductive Warning where
  | immediateTruncated (value : String) (truncated : UInt8)
  | targetTruncated (value : String) (truncated : UInt8)
  | threeOperands (opcode : Opcode)
  | unknownInstruction (mnemonic : String)
  | aliasedAsJump (opcode : Opcode) (jump : Condition)
deriving DecidableEq, Repr

/-- What a diagnostic is about. -/
inductive Problem where
  | warning (cause : Warning)
  | error (cause : LineError)
deriving DecidableEq, Repr

/-- A problem with the line that it arose in, by its number from `1` on and its text. -/
structure Diagnostic where
  line : Nat
  source : String
  problem : Problem
deriving DecidableEq, Repr

def LineError.message : LineError → String
  | .unknownRegister token => "unknown register '" ++ token ++ "', expected R0-R3"
  | .missingOperand mnemonic => mnemonic ++ " is missing an operand"
  | .unexpectedOperand mnemonic operand =>
    "unexpected operand '" ++ operand ++ "' for " ++ mnemonic
  | .invalidNumber token => "malformed number '" ++ token ++ "'"

def Warning.message : Warning → String
  | .immediateTruncated value truncated =>
    "immediate value " ++ value ++ " truncated to " ++ Numeral.decimal truncated.toNat
  | .targetTruncated value truncated =>
    "jump address " ++ value ++ " truncated to " ++ Numeral.decimal truncated.toNat
  | .threeOperands opcode =>
    "three-operand " ++ opcode.mnemonic ++
      " not directly supported, assembled as NOP (use MOV first)"
  | .unknownInstruction mnemonic =>
    "unknown instruction '" ++ mnemonic ++ "', assembled as NOP"
  | .aliasedAsJump opcode jump =>
    opcode.mnemonic ++ " with destination R3 shares the " ++ jump.mnemonic ++
      " encoding and executes as " ++ jump.mnemonic

def Problem.message : Problem → String
  | .warning cause => "warning: " ++ cause.message
  | .error cause => "error: " ++ cause.message

def Problem.isError : Problem → Bool
  | .error _ => true
  | .warning _ => false

namespace Diagnostic

def isError (diagnostic : Diagnostic) : Bool :=
  diagnostic.problem.isError

/-- The diagnostic as one line of text. -/
def message (diagnostic : Diagnostic) : String :=
  "line " ++ Numeral.decimal diagnostic.line ++ ": " ++ diagnostic.problem.message ++
    " (" ++ diagnostic.source ++ ")"

end Diagnostic

end EightBit
