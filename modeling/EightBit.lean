import EightBit.Assembler.Listing
import EightBit.Machine.Session
import EightBit.Main
import EightBit.Proofs.Assembler.Composition
import EightBit.Proofs.Assembler.Endings
import EightBit.Proofs.Assembler.Layout
import EightBit.Proofs.Assembler.Listing
import EightBit.Proofs.Assembler.Recasing
import EightBit.Proofs.CommandLine.Exporting
import EightBit.Proofs.CommandLine.Failing
import EightBit.Proofs.CommandLine.Items
import EightBit.Proofs.CommandLine.Tracing
import EightBit.Proofs.Disassembly.Behaviour
import EightBit.Proofs.File.Naming
import EightBit.Proofs.Isa.Reduction
import EightBit.Proofs.Machine.Accounting
import EightBit.Proofs.Machine.Addresses
import EightBit.Proofs.Machine.Circuit
import EightBit.Proofs.Machine.Forward
import EightBit.Proofs.Machine.Padding
import EightBit.Proofs.Machine.SelfLoop
import EightBit.Proofs.Machine.Splitting
import EightBit.Proofs.Machine.Tracing
import EightBit.Proofs.Machine.Unread
import EightBit.Proofs.Machine.ZeroFlag
import EightBit.Proofs.Rom.Image
import EightBit.Proofs.Rom.Verilog
import EightBit.Proofs.Source.Aliasing
import EightBit.Proofs.Source.Messages
import EightBit.Proofs.Source.Numbering
import EightBit.Proofs.Source.Numbers
import EightBit.Proofs.Source.Outcome
import EightBit.Proofs.Source.Recasing
import EightBit.Proofs.Source.Recognition
import EightBit.Proofs.Source.Simulation
import EightBit.Proofs.CommandLine.Logging
