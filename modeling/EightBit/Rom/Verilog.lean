import EightBit.Rom.Basic
import EightBit.Text.Column
import EightBit.Text.Lines

/-!
# Instruction memory as Verilog

The description of the memory as a Verilog module whose initial block sets one word a line, and the
plain dump of bytes in hexadecimal.
-/

namespace EightBit

/-- Bytes in hexadecimal, separated by spaces. -/
def hexDump (bytes : List UInt8) : String :=
  " ".intercalate (bytes.map Numeral.hex)

example : hexDump [0xA6, 0x0F, 0x00] = "A6 0F 00" := by decide

namespace Rom

/-- The line that sets the word at an address. -/
def verilogEntry (address : Nat) (word : UInt8) : String :=
  "        memory[" ++ Text.rightAligned 2 (Numeral.decimal address) ++ "] = 8'h" ++
    Numeral.hex word ++ ";"

example : verilogEntry 3 0xA6 = "        memory[ 3] = 8'hA6;" := by decide

def verilogHead : List String :=
  ["`timescale 1ns/1ps",
   "",
   "module instruction_memory (",
   "    input [3:0] addr,",
   "    output [7:0] data",
   ");",
   "    reg [7:0] memory [0:15];",
   "    assign data = memory[addr];",
   "",
   "    initial begin"]

def verilogTail : List String :=
  ["    end",
   "endmodule"]

/-- The memory as a Verilog module that reads it by a four-bit address. -/
def verilog (rom : Rom) : String :=
  let entries := rom.words.toList.zipIdx.map fun (word, address) => verilogEntry address word
  Text.unlines (verilogHead ++ entries ++ verilogTail)

end Rom

end EightBit
