import EightBit.Proofs.CommandLine.Items
import EightBit.Proofs.CommandLine.Performing
import EightBit.Proofs.Rom.Verilog

/-!
# Programs that are exported

A command that assembles a program writes one file, and that file and the two lines of output show
the words of the program in three ways. All of them are read back as these words.
-/

namespace EightBit.CommandLine

/-- The output goes to the path that the items give, or else to the default. -/
def GoesTo (items : List Item) (output : String) : Prop :=
  Item.setting .output output ∈ items ∨
    (∀ path, Item.setting .output path ∉ items) ∧ output = "instruction_memory.v"

theorem goesTo_of_acceptAll {grammar : Grammar} {arguments : List String} {settings : Settings}
    (haccept : ({} : Settings).acceptAll grammar (grammar.items arguments) = .ok settings) :
    GoesTo (grammar.items arguments) settings.output := by
  have hflag : Item.flag .output ∉ grammar.items arguments := fun hmem =>
    Bool.false_ne_true (Grammar.takesValue_of_mem_itemsAfter hmem).symm
  have hvalue (path : String) : settings.value? .output = some path ↔
      Item.setting .output path ∈ grammar.items arguments := by
    rw [Settings.value?_acceptAll hflag haccept, or_iff_right nofun]
  rw [Settings.output]
  cases hgiven : settings.value? .output with
  | some path => exact Or.inl ((hvalue path).mp hgiven)
  | none =>
      refine Or.inr ⟨fun path hmem => ?_, rfl⟩
      rw [(hvalue path).mpr hmem] at hgiven
      cases hgiven

/-- What a program is exported to: a file, and the two lines of output. -/
structure Exported (bytes : List UInt8) (output verilog : String) (lines : List String) : Prop where
  length_le : bytes.length ≤ 16
  entries : Rom.entries verilog =
    (List.range 16).map fun address => (address, (bytes.getD address 0).toNat)
  lines : ∃ count dump, lines = ["Generated " ++ output ++ " with " ++ count ++ " instructions",
      "Hex dump: " ++ dump] ∧
    Numeral.number? 10 count.toList = some bytes.length ∧
    Rom.hexBytes? dump.toList = some (bytes.map UInt8.toNat)

theorem exported_of_rom {assembly : Assembly} {rom : Rom} (hrom : assembly.rom = .ok rom)
    (output : String) :
    Exported assembly.bytes output rom.verilog (generatedLines output assembly.bytes) where
  length_le := Assembly.length_bytes_of_rom hrom
  entries := Rom.entries_verilog_of_ofProgram (Assembly.rom_eq_ok_iff.mp hrom).2
  lines := ⟨Numeral.decimal assembly.bytes.length, hexDump assembly.bytes, rfl,
    Numeral.number?_decimal _, Rom.hexBytes?_hexDump _⟩

/-- A command that assembles and succeeds writes the file that its output goes to and changes no
other, and the file and the lines of output show the words of the program as it was read. -/
theorem perform_assemble_exports {arguments : List String} {program output : String}
    {directory after : Directory} {outcome : Outcome}
    (harguments : Command.ofArguments arguments = .ok (.assemble program output))
    (hrun : (perform arguments : StateM Directory Outcome).run directory = (outcome, after))
    (hexit : outcome.exitCode = 0) :
    (∃ front rest, arguments = front ++ "assemble" :: rest ∧
        GoesTo (CommandName.assemble.grammar.items rest) output) ∧
      ∃ text name verilog lines, directory.Holds program text ∧ Path.Names output name ∧
        after.Holds output verilog ∧
        (∀ other ≠ name, after.content? other = directory.content? other) ∧
        outcome.output = Text.unlines lines ∧
        Exported (Assembly.ofText text).bytes output verilog lines := by
  obtain ⟨verbose, hinvocation⟩ := Command.ofArguments_eq_ok_iff.mp harguments
  constructor
  · obtain ⟨front, name, rest, _, commandName, settings, rfl, _, _, _, hname, hsettings, hcommand,
      _⟩ := Invocation.exists_settings hinvocation
    obtain ⟨rfl, _, rfl⟩ := Settings.command_eq_assemble hcommand
    obtain rfl := CommandName.eq_assemble hname
    exact ⟨front, rest, rfl, goesTo_of_acceptAll hsettings⟩
  · have hpath : (Command.assemble program output).program? = some program := rfl
    obtain ⟨report, written, hperform, hperforms⟩ := exists_performs hpath directory
    rw [run_perform hinvocation hperform] at hrun
    cases hrun
    cases hperforms with
    | unread => cases hexit
    | rejected => cases hexit
    | unwritten => cases hexit
    | assembled htext hrom hname =>
        refine ⟨_, _, _, _, htext, hname, Directory.holds_put directory hname _, ?_, rfl,
          exported_of_rom hrom output⟩
        intro other hother
        exact Directory.content?_put_of_ne directory _ hother

/-- A program that goes into the file it comes from. -/
theorem perform_assemble_exports_in_place :
    Command.ofArguments ["assemble", "p", "-o", "./p"] = .ok (.assemble "p" "./p") ∧
      ((perform ["assemble", "p", "-o", "./p"] : StateM Directory Outcome).run
        ⟨[("p", "NOT R0".toUTF8)]⟩).1.exitCode = 0 ∧
      ∃ text name verilog lines, Directory.Holds ⟨[("p", "NOT R0".toUTF8)]⟩ "p" text ∧
        Path.Names "./p" name ∧
        Directory.Holds ((perform ["assemble", "p", "-o", "./p"] : StateM Directory Outcome).run
          ⟨[("p", "NOT R0".toUTF8)]⟩).2 "./p" verilog ∧
        Exported (Assembly.ofText text).bytes "./p" verilog lines := by
  have hexit : ((perform ["assemble", "p", "-o", "./p"] : StateM Directory Outcome).run
      ⟨[("p", "NOT R0".toUTF8)]⟩).1.exitCode = 0 := by
    decide
  have harguments : Command.ofArguments ["assemble", "p", "-o", "./p"] =
      .ok (.assemble "p" "./p") := by
    decide
  obtain ⟨_, text, name, verilog, lines, htext, hname, hverilog, _, _, hexported⟩ :=
    perform_assemble_exports harguments Prod.mk.eta.symm hexit
  exact ⟨harguments, hexit, text, name, verilog, lines, htext, hname, hverilog, hexported⟩

end EightBit.CommandLine
