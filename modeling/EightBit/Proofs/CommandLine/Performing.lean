import EightBit.CommandLine.Perform
import EightBit.Proofs.File.Naming
import EightBit.Proofs.Machine.Tracing

/-!
# What performing a command does

`Performs` lists the ways in which a command on a program ends in a directory, with its report and
the directory behind it, and a command ends in one of them.
-/

namespace EightBit

/-! ## Programs -/

namespace Directory

def text (directory : Directory) (path : String) : Except FileError String :=
  match directory.read path with
  | .ok content =>
    match String.fromUTF8? content with
    | some text => .ok text
    | none => .error .notText
  | .error error => .error error

def program (directory : Directory) (path : String) : Except Failure String :=
  (directory.text path).mapError (Failure.ofRead path)

variable {directory : Directory} {path text : String}

theorem text_eq_ok_iff : directory.text path = .ok text ↔ directory.Holds path text := by
  rw [Directory.text, Holds]
  cases directory.read path with
  | error error => simp
  | ok content =>
      dsimp only
      rw [Except.ok.injEq, ← fromUTF8?_eq_some_iff]
      cases String.fromUTF8? content <;> simp

theorem program_eq_ok_iff : directory.program path = .ok text ↔ directory.Holds path text := by
  rw [← text_eq_ok_iff, program, mapError_eq_ok_iff]

theorem run_read (directory : Directory) (path : String) :
    (FileAccess.read path : StateM Directory _).run directory =
      pure (directory.read path, directory) := rfl

theorem run_readText (directory : Directory) (path : String) :
    (FileAccess.readText path : StateM Directory _).run directory =
      pure (directory.text path, directory) := by
  rw [FileAccess.readText, StateT.run_bind, run_read, pure_bind, Directory.text]
  cases directory.read path with
  | error error => rfl
  | ok content =>
      dsimp only
      cases String.fromUTF8? content <;> rfl

theorem run_readProgram (directory : Directory) (path : String) :
    (readProgram (m := StateM Directory) path).run.run directory =
      pure (directory.program path, directory) := by
  have hread := run_readText directory path
  rw [readProgram, ExceptT.run_bind]
  change ((Except.ok <$> (FileAccess.readText path : StateM Directory _)) >>= _).run directory = _
  rw [map_eq_pure_bind, bind_assoc, StateT.run_bind, hread, pure_bind, pure_bind, program]
  cases directory.text path <;> rfl

theorem run_write (directory : Directory) (path : String) (content : ByteArray) :
    (FileAccess.write path content : StateM Directory _).run directory =
      pure (match directory.write path content with
        | .ok after => (.ok (), after)
        | .error cause => (.error cause, directory)) := by
  change (match directory.write path content with
    | .ok after => (do set after; return .ok () : StateM Directory (Except FileError Unit))
    | .error cause => return .error cause).run directory = _
  cases directory.write path content <;> rfl

/-- Saving a memory ends as finding the place for it does. -/
theorem run_save (directory : Directory) (path : String) (rom : Rom) :
    (rom.save (m := StateM Directory) path).run.run directory =
      pure (match directory.written path with
        | .ok name => (.ok (), directory.put name rom.verilog.toUTF8)
        | .error cause => (.error (.unwritable path cause), directory)) := by
  rw [Rom.save, ExceptT.run_bind]
  change ((Except.ok <$> (FileAccess.write path rom.verilog.toUTF8 : StateM Directory _)) >>=
    _).run directory = _
  rw [map_eq_pure_bind, bind_assoc, StateT.run_bind, run_write, write_eq]
  cases directory.written path <;> rfl

end Directory

/-! ## Memories -/

namespace Assembly

variable {assembly : Assembly}

theorem hasErrors_eq_true_iff : assembly.hasErrors = true ↔ assembly.errors ≠ [] := by
  rw [hasErrors, errors, List.any_eq_true, ne_eq, List.filter_eq_nil_iff]
  simp

theorem rom_eq_ok_iff {rom : Rom} :
    assembly.rom = .ok rom ↔ assembly.errors = [] ∧ Rom.ofProgram assembly.bytes = .ok rom := by
  rw [Assembly.rom]
  split
  · rename_i herrors
    simp [hasErrors_eq_true_iff.mp herrors]
  · rename_i herrors
    rw [hasErrors_eq_true_iff, Classical.not_not] at herrors
    rw [mapError_eq_ok_iff, and_iff_right herrors]

/-- Errors count before too many words. -/
theorem rom_eq_error {failure : Failure} (hrom : assembly.rom = .error failure) :
    assembly.errors ≠ [] ∧ failure = .assembly assembly.errors.length ∨
      assembly.errors = [] ∧ 16 < assembly.bytes.length ∧
        failure = .programTooLarge ⟨assembly.bytes.length⟩ := by
  rw [Assembly.rom] at hrom
  split at hrom
  · rename_i herrors
    cases hrom
    exact Or.inl ⟨hasErrors_eq_true_iff.mp herrors, rfl⟩
  · rename_i herrors
    rw [hasErrors_eq_true_iff, Classical.not_not] at herrors
    rw [Rom.ofProgram] at hrom
    split at hrom
    · cases hrom
    · rename_i hsize
      cases hrom
      exact Or.inr ⟨herrors, Nat.lt_of_not_le hsize, rfl⟩

theorem length_bytes_of_rom {rom : Rom} (hrom : assembly.rom = .ok rom) :
    assembly.bytes.length ≤ 16 := by
  have hprogram := (rom_eq_ok_iff.mp hrom).2
  rw [Rom.ofProgram] at hprogram
  split at hprogram
  · assumption
  · cases hprogram

end Assembly

namespace CommandLine

variable {directory after : Directory} {path text : String} {rom : Rom} {failure : Failure}
  {use : Assembly → Rom → ExceptT Failure (StateM Directory) (List String × List Event)}

/-- The report on a program that could be read. -/
def programReport (text : String) : Except Failure (List String × List Event) → Report
  | .ok (output, closing) => ⟨output, programRemarks text closing, none⟩
  | .error failure => ⟨[], programRemarks text [], some failure⟩

theorem run_onProgram_of_unread (hprogram : directory.program path = .error failure) :
    (onProgram path use).run directory = pure (⟨[], [], some failure⟩, directory) := by
  rw [onProgram, StateT.run_bind, Directory.run_readProgram, pure_bind, hprogram]
  rfl

theorem run_onProgram_of_rejected (hprogram : directory.program path = .ok text)
    (hrom : (Assembly.ofText text).rom = .error failure) :
    (onProgram path use).run directory =
      pure (programReport text (.error failure), directory) := by
  rw [onProgram, StateT.run_bind, Directory.run_readProgram, pure_bind, hprogram]
  dsimp only
  rw [StateT.run_bind, ExceptT.run_bind, hrom]
  rfl

theorem run_onProgram_of_used (hprogram : directory.program path = .ok text)
    (hrom : (Assembly.ofText text).rom = .ok rom)
    {result : Except Failure (List String × List Event)}
    (huse : (use (Assembly.ofText text) rom).run.run directory = pure (result, after)) :
    (onProgram path use).run directory = pure (programReport text result, after) := by
  rw [onProgram, StateT.run_bind, Directory.run_readProgram, pure_bind, hprogram]
  dsimp only
  rw [StateT.run_bind, ExceptT.run_bind, hrom]
  change (StateT.run (use (Assembly.ofText text) rom).run directory >>= _) = _
  rw [huse, pure_bind]
  cases result <;> rfl

/-! ## Commands -/

def Command.program? : Command → Option String
  | .assemble program _ => some program
  | .run program _ _ => some program
  | .verify => none

/-- How a command on a program ends in a directory, with its report and the directory after it. -/
inductive Performs (directory : Directory) : Command → Report → Directory → Prop
  | unread {command : Command} {path : String} {failure : Failure}
      (hpath : command.program? = some path) (hprogram : directory.program path = .error failure) :
      Performs directory command ⟨[], [], some failure⟩ directory
  | rejected {command : Command} {path text : String} {failure : Failure}
      (hpath : command.program? = some path) (htext : directory.Holds path text)
      (hrom : (Assembly.ofText text).rom = .error failure) :
      Performs directory command ⟨[], programRemarks text [], some failure⟩ directory
  | unwritten {path output text : String} {rom : Rom} {cause : FileError}
      (htext : directory.Holds path text) (hrom : (Assembly.ofText text).rom = .ok rom)
      (hwritten : directory.written output = .error cause) :
      Performs directory (.assemble path output)
        ⟨[], programRemarks text [], some (.unwritable output cause)⟩ directory
  | assembled {path output text name : String} {rom : Rom}
      (htext : directory.Holds path text) (hrom : (Assembly.ofText text).rom = .ok rom)
      (hname : Path.Names output name) :
      Performs directory (.assemble path output)
        ⟨generatedLines output (Assembly.ofText text).bytes, programRemarks text [], none⟩
        (directory.put name rom.verilog.toUTF8)
  | ran {path text : String} {options : RunOptions} {traced : Bool} {rom : Rom}
      (htext : directory.Holds path text) (hrom : (Assembly.ofText text).rom = .ok rom) :
      Performs directory (.run path options traced)
        ⟨(observedRun options traced rom).1 ++
            summaryLines ((Machine.start rom).run options).summary,
          programRemarks text [.finished ((Machine.start rom).run options).summary], none⟩
        directory

/-- What assembling does with a program that could be read. -/
def saving (output : String) (assembly : Assembly) (rom : Rom) :
    ExceptT Failure (StateM Directory) (List String × List Event) := do
  rom.save output
  return (generatedLines output assembly.bytes, [])

theorem perform_assemble (program output : String) :
    (Command.assemble program output).perform = onProgram program (saving output) := rfl

theorem perform_run (program : String) (options : RunOptions) (traced : Bool) :
    (Command.run program options traced).perform (m := StateM Directory) =
      onProgram program fun _ rom =>
        pure ((observedRun options traced rom).1 ++ summaryLines (observedRun options traced rom).2,
          [.finished (observedRun options traced rom).2]) := rfl

theorem observedRun_traced (options : RunOptions) (rom : Rom) :
    observedRun options true rom = (((Machine.start rom).tracedRun options).gathered.toList,
      ((Machine.start rom).run options).summary) := by
  change (_, ((Machine.start rom).tracedRun options).summary) = _
  rw [Machine.tracedRun, Machine.runWith_eq]
  rfl

/-- A run ends as it does without its trace. -/
theorem observedRun_summary (options : RunOptions) (traced : Bool) (rom : Rom) :
    (observedRun options traced rom).2 = ((Machine.start rom).run options).summary := by
  cases traced with
  | false => rfl
  | true => rw [observedRun_traced]

theorem run_saving (directory : Directory) (output : String) (assembly : Assembly) (rom : Rom) :
    (saving output assembly rom).run.run directory =
      pure (match directory.written output with
        | .ok name => (.ok (generatedLines output assembly.bytes, []),
            directory.put name rom.verilog.toUTF8)
        | .error cause => (.error (.unwritable output cause), directory)) := by
  rw [saving, ExceptT.run_bind, StateT.run_bind, Directory.run_save]
  cases directory.written output <;> rfl

/-- What is not up to the use of a program: whether it can be read and fits into the memory. -/
theorem exists_performs_onProgram {command : Command} (hpath : command.program? = some path)
    (huse : ∀ text rom, directory.Holds path text → (Assembly.ofText text).rom = .ok rom →
      ∃ result after, (use (Assembly.ofText text) rom).run.run directory = pure (result, after) ∧
        Performs directory command (programReport text result) after) :
    ∃ report after, (onProgram path use).run directory = (report, after) ∧
      Performs directory command report after := by
  cases hprogram : directory.program path with
  | error failure =>
      exact ⟨_, _, run_onProgram_of_unread hprogram, .unread hpath hprogram⟩
  | ok text =>
      have htext := Directory.program_eq_ok_iff.mp hprogram
      cases hrom : (Assembly.ofText text).rom with
      | error failure =>
          exact ⟨_, _, run_onProgram_of_rejected hprogram hrom, .rejected hpath htext hrom⟩
      | ok rom =>
          obtain ⟨result, after, hresult, hperforms⟩ := huse text rom htext hrom
          exact ⟨_, _, run_onProgram_of_used hprogram hrom hresult, hperforms⟩

/-- A command on a program ends in one of these ways. -/
theorem exists_performs {command : Command} (hpath : command.program? = some path)
    (directory : Directory) : ∃ report after,
      (command.perform : StateM Directory Report).run directory = (report, after) ∧
        Performs directory command report after := by
  cases command with
  | assemble program output =>
      obtain rfl : program = path := Option.some.inj hpath
      rw [perform_assemble]
      refine exists_performs_onProgram hpath ?_
      intro text rom htext hrom
      have hsaving := run_saving directory output (Assembly.ofText text) rom
      cases hwritten : directory.written output with
      | error cause =>
          rw [hwritten] at hsaving
          exact ⟨_, _, hsaving, .unwritten htext hrom hwritten⟩
      | ok name =>
          rw [hwritten] at hsaving
          have hname := Directory.written_eq_ok_iff.mp hwritten
          exact ⟨_, _, hsaving, .assembled htext hrom hname⟩
  | run program options traced =>
      obtain rfl : program = path := Option.some.inj hpath
      rw [perform_run]
      refine exists_performs_onProgram hpath ?_
      intro text rom htext hrom
      rw [observedRun_summary]
      exact ⟨.ok _, directory, rfl, .ran htext hrom⟩
  | verify => cases hpath

theorem run_perform {arguments : List String} {command : Command} {verbose : Bool}
    {report : Report} (harguments : Invocation.ofArguments arguments = .ok ⟨command, verbose⟩)
    (hrun : (command.perform : StateM Directory Report).run directory = (report, after)) :
    (perform arguments : StateM Directory Outcome).run directory =
      (report.outcome verbose, after) := by
  rw [perform, harguments]
  change ((command.perform : StateM Directory Report) >>= fun report =>
    pure (report.outcome verbose)).run directory = _
  rw [StateT.run_bind, hrun]
  rfl

end CommandLine

end EightBit
