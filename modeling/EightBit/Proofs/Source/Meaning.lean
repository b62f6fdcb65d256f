import EightBit.Machine.State
import EightBit.Proofs.Assembler.Literals
import EightBit.Proofs.Assembler.Parsing
import EightBit.Proofs.Assembler.Tokens

/-!
# What a program asks for

The meaning of a program in terms of what is written on its lines. `Intent` is what one line asks
for, `Intent.Spelled` gives the tokens that ask for it, and `Intent.step` carries out the line at
the program counter. There are no words here, so no number is cut to the bits of a field and no
operation can be taken for a jump.
-/

namespace EightBit

/-- The operations that compute a register from two. -/
inductive Operator where
  | add | mul | and | or | xor
deriving DecidableEq, Repr

namespace Operator

def name : Operator → String
  | .add => "ADD"
  | .mul => "MUL"
  | .and => "AND"
  | .or => "OR"
  | .xor => "XOR"

/-- The result, modulo 256 for a sum or a product. -/
def apply : Operator → UInt8 → UInt8 → UInt8
  | .add, a, b => a + b
  | .mul, a, b => a * b
  | .and, a, b => a &&& b
  | .or, a, b => a ||| b
  | .xor, a, b => a ^^^ b

end Operator

def Register.first : Register := Register.ofField 0

/-- What a line asks for. Numbers are as they are written, of any size. -/
inductive Intent where
  | nop
  | load (dest : Register) (value : Nat)
  | copy (dest source : Register)
  | compute (operator : Operator) (dest source : Register)
  | complement (dest : Register)
  | compare (dest source : Register)
  | jump (condition : Condition) (target : Nat)
deriving DecidableEq, Repr

namespace Intent

/-! ## Carrying it out -/

/-- The state at the next line. -/
def advance (state : State) : State :=
  { state with pc := state.pc + 1 }

/-- The state at the next line with a result in a register, and the flag that tells if it is
zero. -/
def record (state : State) (dest : Register) (result : UInt8) : State :=
  advance { state.setRegister dest result with zero := decide (result = 0) }

def taken (state : State) : Condition → Prop
  | .always => True
  | .zero => state.zero = true
  | .nonzero => state.zero = false

instance (state : State) : (condition : Condition) → Decidable (taken state condition)
  | .always => isTrue trivial
  | .zero => inferInstanceAs (Decidable (state.zero = true))
  | .nonzero => inferInstanceAs (Decidable (state.zero = false))

def perform (state : State) : Intent → State
  | .nop => record state .first (state.register .first + state.register .first)
  | .load dest value => advance (state.setRegister dest (.ofNat value))
  | .copy dest source => advance (state.setRegister dest (state.register source))
  | .compute operator dest source =>
      record state dest (operator.apply (state.register dest) (state.register source))
  | .complement dest => record state dest (~~~state.register dest)
  | .compare dest source =>
      advance { state with zero := decide (state.register dest = state.register source) }
  | .jump condition target =>
      if taken state condition then { state with pc := .ofNat target } else advance state

/-- The line at an address of four bits. Behind the program every line is a `NOP`. -/
def fetch (program : List Intent) (pc : UInt8) : Intent :=
  program.getD (pc.toNat % 16) .nop

def step (program : List Intent) (state : State) : State :=
  (fetch program state.pc).perform state

/-! ## Writing it down -/

/-- The tokens that ask for something. A mnemonic is its name in either case. -/
inductive Spelled : List Token → Intent → Prop
  | nop {name : Token} (hname : Text.alike "NOP" name = true) : Spelled [name] .nop
  | load {name first second : Token} {dest : Register} {value : Nat}
      (hname : Text.alike "MOV" name = true) (hdest : Register.Names first dest)
      (hmark : second.toList.head? = some '#') (hvalue : Literal.Denotes second value) :
      Spelled [name, first, second] (.load dest value)
  | copy {name first second : Token} {dest source : Register}
      (hname : Text.alike "MOV" name = true) (hdest : Register.Names first dest)
      (hsource : Register.Names second source) :
      Spelled [name, first, second] (.copy dest source)
  | compute {name first second : Token} {operator : Operator} {dest source : Register}
      (hname : Text.alike operator.name name = true) (hdest : Register.Names first dest)
      (hsource : Register.Names second source) :
      Spelled [name, first, second] (.compute operator dest source)
  | complement {name first : Token} {dest : Register} (hname : Text.alike "NOT" name = true)
      (hdest : Register.Names first dest) : Spelled [name, first] (.complement dest)
  | compare {name first second : Token} {dest source : Register}
      (hname : Text.alike "CMP" name = true) (hdest : Register.Names first dest)
      (hsource : Register.Names second source) :
      Spelled [name, first, second] (.compare dest source)
  | jump {name first : Token} {condition : Condition} {target : Nat}
      (hname : Text.alike condition.mnemonic name = true) (htarget : Literal.Denotes first target) :
      Spelled [name, first] (.jump condition target)

/-- What the lines with tokens ask for, in their order. -/
inductive Written : List String → List Intent → Prop
  | nil : Written [] []
  | blank {line : String} {rest : List String} {program : List Intent}
      (hline : Token.Reads line []) (hrest : Written rest program) :
      Written (line :: rest) program
  | line {line : String} {tokens : List Token} {rest : List String} {intent : Intent}
      {program : List Intent} (hline : Token.Reads line tokens) (hspelled : Spelled tokens intent)
      (hrest : Written rest program) : Written (line :: rest) (intent :: program)

end Intent

end EightBit
