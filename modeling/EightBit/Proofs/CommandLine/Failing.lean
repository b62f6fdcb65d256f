import EightBit.Proofs.CommandLine.Logging
import EightBit.Proofs.CommandLine.Performing
import EightBit.Proofs.Source.Messages

/-!
# Commands that fail

A command on a program reads it, assembles it, puts it into the memory and, if it has to, writes the
memory. The first of these steps that fails is the failure of the command, and then there is no
output and no file has changed. The failure is the last that is said, behind the diagnostics of the
program and the log.
-/

namespace EightBit.CommandLine

/-- What goes wrong with writing the memory, when it comes to that. -/
def Command.writeFailure? (directory : Directory) : Command → Option Failure
  | .assemble _ output =>
    match directory.written output with
    | .error cause => some (.unwritable output cause)
    | .ok _ => none
  | .run .. | .verify => none

/-- What goes wrong first with a command on a program. -/
def Command.failure? (directory : Directory) (command : Command) : Option Failure :=
  match command.program?.map directory.program with
  | none => none
  | some (.error failure) => some failure
  | some (.ok text) =>
    let assembly := Assembly.ofText text
    if assembly.errors ≠ [] then some (.assembly assembly.errors.length)
    else if 16 < assembly.bytes.length then some (.programTooLarge ⟨assembly.bytes.length⟩)
    else command.writeFailure? directory

/-- What is told after the listing of a program: how a run of it ends, if it comes to a run. -/
def Command.closing (text : String) : Command → List Event
  | .run _ options _ =>
    match (Assembly.ofText text).rom with
    | .ok rom => [.finished ((Machine.start rom).run options).summary]
    | .error _ => []
  | .assemble .. | .verify => []

/-- What a command remarks on its program, nothing if it cannot be read. -/
def Command.remarks (directory : Directory) (command : Command) : List Remark :=
  match command.program?.map directory.program with
  | some (.ok text) => programRemarks text (command.closing text)
  | some (.error _) | none => []

section Performs

variable {directory after : Directory} {command : Command} {program text : String}
  {report : Report}

theorem failure?_of_unread {failure : Failure} (hpath : command.program? = some program)
    (hprogram : directory.program program = .error failure) :
    command.failure? directory = some failure := by
  rw [Command.failure?, hpath, Option.map_some, hprogram]

theorem failure?_of_rejected {failure : Failure} (hpath : command.program? = some program)
    (htext : directory.Holds program text) (hrom : (Assembly.ofText text).rom = .error failure) :
    command.failure? directory = some failure := by
  have hprogram := Directory.program_eq_ok_iff.mpr htext
  simp only [Command.failure?, hpath, Option.map_some, hprogram]
  rcases Assembly.rom_eq_error hrom with ⟨herrors, rfl⟩ | ⟨herrors, hsize, rfl⟩
  · rw [if_pos herrors]
  · rw [if_neg (not_not_intro herrors), if_pos hsize]

theorem failure?_of_rom {rom : Rom} (hpath : command.program? = some program)
    (htext : directory.Holds program text) (hrom : (Assembly.ofText text).rom = .ok rom) :
    command.failure? directory = command.writeFailure? directory := by
  have hprogram := Directory.program_eq_ok_iff.mpr htext
  have herrors := (Assembly.rom_eq_ok_iff.mp hrom).1
  have hsize := Assembly.length_bytes_of_rom hrom
  simp only [Command.failure?, hpath, Option.map_some, hprogram]
  rw [if_neg (not_not_intro herrors), if_neg (Nat.not_lt_of_le hsize)]

/-- The failure that is reported is the first. -/
theorem Performs.failure?_eq (hperforms : Performs directory command report after) :
    report.failure? = command.failure? directory := by
  cases hperforms with
  | unread hpath hprogram => exact (failure?_of_unread hpath hprogram).symm
  | rejected hpath htext hrom => exact (failure?_of_rejected hpath htext hrom).symm
  | unwritten htext hrom hwritten =>
      rw [failure?_of_rom rfl htext hrom, Command.writeFailure?, hwritten]
  | assembled htext hrom hname =>
      rw [failure?_of_rom rfl htext hrom, Command.writeFailure?,
        Directory.written_eq_ok_iff.mpr hname]
  | ran htext hrom =>
      rw [failure?_of_rom rfl htext hrom]
      rfl

theorem Performs.run_keeps {options : RunOptions} {traced : Bool}
    (hperforms : Performs directory (.run program options traced) report after) :
    after = directory := by
  cases hperforms <;> rfl

/-! ## What is remarked -/

theorem closing_of_rejected {failure : Failure}
    (hrom : (Assembly.ofText text).rom = .error failure) : command.closing text = [] := by
  cases command with
  | run => rw [Command.closing, hrom]
  | assemble | verify => rfl

theorem remarks_of_unread {failure : Failure} (hpath : command.program? = some program)
    (hprogram : directory.program program = .error failure) :
    command.remarks directory = [] := by
  rw [Command.remarks, hpath, Option.map_some, hprogram]

theorem remarks_of_holds (hpath : command.program? = some program)
    (htext : directory.Holds program text) :
    command.remarks directory = programRemarks text (command.closing text) := by
  rw [Command.remarks, hpath, Option.map_some, Directory.program_eq_ok_iff.mpr htext]

/-- A program that is read is remarked on, in whatever way its command ends. -/
theorem Performs.remarks_eq (hperforms : Performs directory command report after) :
    report.remarks = command.remarks directory := by
  cases hperforms with
  | unread hpath hprogram => exact (remarks_of_unread hpath hprogram).symm
  | rejected hpath htext hrom => rw [remarks_of_holds hpath htext, closing_of_rejected hrom]
  | unwritten htext _ _ => rw [remarks_of_holds rfl htext, Command.closing]
  | assembled htext _ _ => rw [remarks_of_holds rfl htext, Command.closing]
  | ran htext hrom => rw [remarks_of_holds rfl htext, Command.closing, hrom]

/-! ## When there is a failure -/

theorem exitCode_outcome_iff (report : Report) (verbose : Bool) :
    (report.outcome verbose).exitCode = 1 ↔ report.failure? ≠ none := by
  rw [Report.outcome]
  cases report.failure? <;> simp

/-- The line about a failure comes behind the remarks that are shown. -/
theorem errorOutput_outcome (report : Report) (verbose : Bool) (log : Log) :
    (report.outcome verbose).errorOutput log = Text.unlines (
      Remark.texts log 0 (report.remarks.filter (·.isShown verbose)) ++
        (report.failure?.map failureLine).toList) := by
  have hfailure : (report.failure?.map fun failure => Remark.line (failureLine failure)).toList =
      (report.failure?.map failureLine).toList.map .line := by
    cases report.failure? <;> rfl
  rw [Outcome.errorOutput, Report.outcome, hfailure, Remark.texts_append, Remark.texts_map_line]

end Performs

end EightBit.CommandLine
