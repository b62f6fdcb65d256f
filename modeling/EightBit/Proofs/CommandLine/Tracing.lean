import EightBit.Proofs.CommandLine.Failing
import EightBit.Proofs.CommandLine.TraceSwitch
import EightBit.Proofs.Machine.Tracing

/-!
# Runs that are traced

What a run reports with the switch for traces and without it differs by the trace lines, which come
first. Those lines show the machine before each of its instructions.
-/

namespace EightBit.CommandLine

/-- The same command with the switch for traces and without it, in the same directory. -/
structure Alike (directory : Directory) (program : String) (options : RunOptions)
    (traced plain : Outcome × Directory) : Prop where
  exitCode : traced.1.exitCode = plain.1.exitCode
  errorOutput : ∀ log, traced.1.errorOutput log = plain.1.errorOutput log
  files : traced.2 = plain.2
  output : traced.1.exitCode = 0 → ∃ text rom, directory.Holds program text ∧
    (Assembly.ofText text).rom = .ok rom ∧
    traced.1.output =
      Text.unlines ((Machine.start rom).tracedRun options).gathered.toList ++ plain.1.output

section Performs

variable {directory after other : Directory} {program : String} {options : RunOptions}
  {traced plain : Report}

theorem output_alike (htraced : Performs directory (.run program options true) traced after)
    (hplain : Performs directory (.run program options false) plain other)
    (hsuccess : traced.failure? = none) :
    ∃ text rom, directory.Holds program text ∧ (Assembly.ofText text).rom = .ok rom ∧
      traced.output = ((Machine.start rom).tracedRun options).gathered.toList ++ plain.output := by
  have hfailure : plain.failure? = none := by
    rw [hplain.failure?_eq, ← hsuccess, htraced.failure?_eq]
    rfl
  cases htraced with
  | unread => cases hsuccess
  | rejected => cases hsuccess
  | @ran _ text _ _ rom htext hrom =>
      cases hplain with
      | unread => cases hfailure
      | rejected => cases hfailure
      | @ran _ same _ _ image hsame himage =>
          obtain rfl := htext.unique hsame
          obtain rfl := Except.ok.inj (hrom.symm.trans himage)
          refine ⟨text, rom, htext, hrom, ?_⟩
          rw [observedRun_traced]
          rfl

theorem Performs.alike (htraced : Performs directory (.run program options true) traced after)
    (hplain : Performs directory (.run program options false) plain other) (verbose : Bool) :
    Alike directory program options (traced.outcome verbose, after)
      (plain.outcome verbose, other) := by
  have hfailure : traced.failure? = plain.failure? := by
    rw [htraced.failure?_eq, hplain.failure?_eq]
    rfl
  have hremarks : traced.remarks = plain.remarks := by
    rw [htraced.remarks_eq, hplain.remarks_eq]
    rfl
  constructor
  · simp only [Report.outcome, hfailure]
  · intro log
    rw [errorOutput_outcome, errorOutput_outcome, hremarks, hfailure]
  · exact htraced.run_keeps.trans hplain.run_keeps.symm
  · intro hexit
    have hsuccess : traced.failure? = none := by
      rw [← not_ne_iff, ← exitCode_outcome_iff traced verbose, hexit]
      decide
    obtain ⟨text, rom, htext, hrom, houtput⟩ := output_alike htraced hplain hsuccess
    refine ⟨text, rom, htext, hrom, ?_⟩
    change Text.unlines traced.output = _ ++ Text.unlines plain.output
    rw [houtput, Text.unlines_append]

end Performs

/-- The counter of a machine never comes round in a run from the command line. -/
theorem cycles_run_lt {arguments : List String} {program : String} {options : RunOptions}
    {traced : Bool} (harguments : Command.ofArguments arguments = .ok (.run program options traced))
    (machine : Machine) : (machine.run options).cycles < 2 ^ 32 := by
  obtain ⟨_, hinvocation⟩ := Command.ofArguments_eq_ok_iff.mp harguments
  obtain ⟨_, _, _, _, _, settings, _, _, _, _, _, _, hcommand, _⟩ :=
    Invocation.exists_settings hinvocation
  obtain ⟨_, _, hoptions, _⟩ := Settings.command_eq_run_iff.mp hcommand
  obtain ⟨last, _, hlast, hrun⟩ := Machine.run_ends options machine
  rw [hrun]
  exact Nat.lt_of_le_of_lt hlast (Settings.budget_lt hoptions)

/-- Tracing observes a run and never disturbs it. At the command line a run is traced when the
switch for traces is among its arguments, and the trace lines come in front of what the run reports
without the switch. -/
theorem tracing_observes :
    (∀ (machine : Machine) (options : RunOptions),
        machine.cycles.toNat + (machine.run options).cycles < 2 ^ 32 →
          machine.Observed options) ∧
      (∀ (arguments : List String) (program : String) (options : RunOptions),
        Command.ofArguments arguments = .ok (.run program options true) →
          ∃ before after, arguments = before ++ "--trace" :: after ∧ "--" ∉ before) ∧
      ∀ (before after : List String) (program : String) (options : RunOptions) (traced : Bool),
        "--" ∉ before →
        Command.ofArguments (before ++ "--trace" :: after) = .ok (.run program options traced) →
          traced = true ∧
          Command.ofArguments (before ++ after) = .ok (.run program options false) ∧
          (∀ rom, (Machine.start rom).Observed options) ∧
          ∀ directory : Directory, Alike directory program options
            ((perform (before ++ "--trace" :: after) : StateM Directory Outcome).run directory)
            ((perform (before ++ after) : StateM Directory Outcome).run directory) := by
  refine ⟨fun machine options hfew => Machine.observed hfew,
    fun arguments program options harguments => Command.exists_trace harguments, ?_⟩
  intro before after program options traced hend harguments
  obtain ⟨verbose, htraced⟩ := Command.ofArguments_eq_ok_iff.mp harguments
  obtain ⟨rfl, hplain⟩ := Invocation.ofArguments_without_trace hend htraced
  refine ⟨rfl, Command.ofArguments_eq_ok_iff.mpr ⟨verbose, hplain⟩,
    fun rom => Machine.observed ?_, fun directory => ?_⟩
  · have hcycles := cycles_run_lt harguments (Machine.start rom)
    rwa [← Nat.zero_add (Machine.run options (Machine.start rom)).cycles] at hcycles
  · have hpath (traced : Bool) :
        (Command.run program options traced).program? = some program := rfl
    obtain ⟨report, final, hrun, hperforms⟩ := exists_performs (hpath true) directory
    obtain ⟨other, last, hrunPlain, hperformsPlain⟩ := exists_performs (hpath false) directory
    rw [run_perform htraced hrun, run_perform hplain hrunPlain]
    exact hperforms.alike hperformsPlain verbose

/-- The switch in front of the path of a program. -/
theorem tracing_observes_run :
    Command.ofArguments ["run", "--trace", "p"] = .ok (.run "p" ⟨50, .never⟩ true) ∧
      Command.ofArguments ["run", "p"] = .ok (.run "p" ⟨50, .never⟩ false) ∧
      Alike ⟨[("p", "NOT R0".toUTF8)]⟩ "p" ⟨50, .never⟩
        ((perform ["run", "--trace", "p"] : StateM Directory Outcome).run
          ⟨[("p", "NOT R0".toUTF8)]⟩)
        ((perform ["run", "p"] : StateM Directory Outcome).run ⟨[("p", "NOT R0".toUTF8)]⟩) := by
  have harguments : Command.ofArguments (["run"] ++ "--trace" :: ["p"]) =
      .ok (.run "p" ⟨50, .never⟩ true) := by
    decide
  obtain ⟨_, hplain, _, halike⟩ :=
    tracing_observes.2.2 ["run"] ["p"] "p" ⟨50, .never⟩ true (by decide) harguments
  exact ⟨harguments, hplain, halike _⟩

end EightBit.CommandLine
