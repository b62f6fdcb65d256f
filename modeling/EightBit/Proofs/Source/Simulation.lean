import EightBit.Machine.Basic
import EightBit.Proofs.Assembler.Program
import EightBit.Proofs.Rom.Program
import EightBit.Proofs.Source.Grammar
import Mathlib.Logic.Function.Iterate

/-!
# Programs run as they are written

An assembly without diagnostics is the program that its lines ask for, and the machine with its
words goes through the states that carrying out the lines gives, for any number of steps.
-/

namespace EightBit

namespace Intent

/-- The words are those of the instructions for what a program asks for, and can hold it. -/
def Compiles (program : List Intent) (words : List UInt8) : Prop :=
  (∀ intent ∈ program, intent.Fits) ∧ words = program.map fun intent => intent.instruction.encode

theorem fits_fetch {program : List Intent} (hfits : ∀ intent ∈ program, intent.Fits)
    (address : UInt8) : (fetch program address).Fits := by
  rw [fetch]
  by_cases hinside : address.toNat % 16 < program.length
  · rw [List.getD_eq_getElem program _ hinside]
    exact hfits _ (List.getElem_mem hinside)
  · rw [List.getD_eq_default program _ (Nat.le_of_not_lt hinside)]
    trivial

theorem decode_fetch {program : List Intent} {words : List UInt8}
    (hcompiles : Compiles program words) (address : UInt8) :
    Instruction.decode (words.getD (address.toNat % 16) EightBit.nop) =
      (fetch program address).instruction := by
  obtain ⟨hfits, rfl⟩ := hcompiles
  have hword : EightBit.nop = nop.instruction.encode := rfl
  rw [hword, List.getD_map _ _ fun intent : Intent => intent.instruction.encode]
  exact Instruction.decode_encode (instruction_valid (fits_fetch hfits address))

/-- Executing the word at the program counter is carrying out the line there. -/
theorem state_step_eq {program : List Intent} {words : List UInt8} {machine : Machine}
    (hcompiles : Compiles program words) (hrom : Rom.ofProgram words = .ok machine.rom) :
    machine.step.state = step program machine.state := by
  rw [Machine.state_step, Machine.next, Machine.word, Rom.read_ofProgram hrom,
    decode_fetch hcompiles, execute_instruction (fits_fetch hcompiles.1 machine.state.pc), step]

/-- The machine goes through the states of the program. -/
theorem state_iterate_step {program : List Intent} {words : List UInt8} {rom : Rom}
    (hcompiles : Compiles program words) (hrom : Rom.ofProgram words = .ok rom)
    (state : State) (cycles : UInt32) (count : Nat) :
    (Machine.step^[count] ⟨rom, state, cycles⟩).rom = rom ∧
      (Machine.step^[count] ⟨rom, state, cycles⟩).state = (step program)^[count] state := by
  induction count with
  | zero => exact ⟨rfl, rfl⟩
  | succ count ih =>
      obtain ⟨hsame, hstate⟩ := ih
      rw [Function.iterate_succ_apply', Function.iterate_succ_apply', Machine.rom_step]
      refine ⟨hsame, ?_⟩
      rw [← hsame] at hrom
      rw [state_step_eq hcompiles hrom, hstate]

theorem written_nil_iff {program : List Intent} : Written [] program ↔ program = [] := by
  constructor
  · intro hwritten
    cases hwritten
    rfl
  · rintro rfl
    exact .nil

theorem written_cons_blank_iff {line : String} {rest : List String} {program : List Intent}
    (hline : Token.ofLine line = []) : Written (line :: rest) program ↔ Written rest program := by
  rw [← Token.reads_iff] at hline
  constructor
  · intro hwritten
    cases hwritten with
    | blank _ hrest => exact hrest
    | line htokens hspelled _ =>
        rw [Token.reads_iff] at hline htokens
        rw [← htokens, hline] at hspelled
        cases hspelled
  · exact .blank hline

theorem written_cons_line_iff {line : String} {rest : List String} {program : List Intent}
    (hline : Token.ofLine line ≠ []) :
    Written (line :: rest) program ↔ ∃ intent tail, Spelled (Token.ofLine line) intent ∧
      Written rest tail ∧ program = intent :: tail := by
  constructor
  · intro hwritten
    cases hwritten with
    | blank htokens _ => exact absurd (Token.reads_iff.mp htokens) hline
    | line htokens hspelled hrest =>
        rw [← Token.reads_iff.mp htokens] at hspelled
        exact ⟨_, _, hspelled, hrest, rfl⟩
  · rintro ⟨intent, tail, hspelled, hrest, rfl⟩
    exact .line (Token.reads_iff.mpr rfl) hspelled hrest

/-- A statement without warnings is the only meaning of its line. -/
theorem exists_spelled_iff {line : String} {statement : Statement}
    (hline : Statement.ofLine line = .ok (some statement)) (hwarnings : statement.warnings = []) :
    ∃ intent : Intent, intent.Fits ∧ statement.word = intent.instruction.encode ∧
      ∀ other, Spelled (Token.ofLine line) other ↔ other = intent := by
  have hmeans {other : Intent} (hspelled : Spelled (Token.ofLine line) other) :
      statement.Means other := by
    obtain ⟨found, hfound, hmeans⟩ := Statement.means_of_spelled rfl hspelled
    rw [hline] at hfound
    cases hfound
    exact hmeans
  obtain ⟨intent, hspelled⟩ := Statement.spelled_of_ofLine hline hwarnings
  have hfits := (Statement.warnings_eq_nil_iff (hmeans hspelled)).mp hwarnings
  refine ⟨intent, hfits, Statement.word_of_means_of_fits (hmeans hspelled) hfits, ?_⟩
  intro other
  constructor
  · intro hother
    exact Statement.means_unique (hmeans hspelled) (hmeans hother) hwarnings
  · rintro rfl
    exact hspelled

/-- Lines without diagnostics ask for one program, and their words compile it. -/
theorem exists_written_iff {first : Nat} {lines : List String}
    (hclean : (Assembly.ofLinesFrom first lines).diagnostics = []) :
    ∃ program, Compiles program (Assembly.ofLinesFrom first lines).bytes ∧
      ∀ other, Written lines other ↔ other = program := by
  induction lines generalizing first with
  | nil => exact ⟨[], ⟨by simp, rfl⟩, fun other => written_nil_iff⟩
  | cons line rest ih =>
      rw [Assembly.ofLinesFrom, Assembly.diagnostics_append, List.append_eq_nil_iff] at hclean
      obtain ⟨program, ⟨hfits, hwords⟩, hprogram⟩ := ih hclean.2
      rw [Assembly.ofLinesFrom, Assembly.bytes_append, hwords]
      rcases Assembly.bytes_ofLine_of_clean hclean.1 with
        ⟨hline, hbytes⟩ | ⟨statement, hline, hwarnings, hbytes⟩
      · have htokens := Statement.ofLine_eq_none_iff.mp hline
        refine ⟨program, ⟨hfits, by rw [hbytes, List.nil_append]⟩, ?_⟩
        intro other
        rw [written_cons_blank_iff htokens, hprogram]
      · have htokens : Token.ofLine line ≠ [] := by
          intro hnil
          rw [Statement.ofLine_eq_none_iff.mpr hnil] at hline
          cases hline
        obtain ⟨intent, hfit, hword, hspelled⟩ := exists_spelled_iff hline hwarnings
        refine ⟨intent :: program, ⟨?_, ?_⟩, ?_⟩
        · exact List.forall_mem_cons.mpr ⟨hfit, hfits⟩
        · rw [hbytes, hword, List.singleton_append, List.map_cons]
        · intro other
          rw [written_cons_line_iff htokens]
          simp only [hspelled, hprogram, exists_and_left, exists_eq_left]

end Intent

/-- A text that is assembled without diagnostics to words that the memory holds asks for exactly one
program. From every state and for every number of steps, the machine with the words is in the state
that the program leads to. -/
theorem Assembly.ofText_runs_as_written {text : String}
    (hclean : (ofText text).diagnostics = []) (hsize : (ofText text).bytes.length ≤ 16) :
    ∃ program rom,
      (∀ other, Intent.Written ((Text.lines text.toList).map String.ofList) other ↔
        other = program) ∧
      (∀ intent ∈ program, intent.Fits) ∧
      Rom.ofProgram (ofText text).bytes = .ok rom ∧
      ∀ state cycles count, (Machine.step^[count] ⟨rom, state, cycles⟩).state =
        (Intent.step program)^[count] state := by
  obtain ⟨program, hcompiles, hwritten⟩ := Intent.exists_written_iff hclean
  obtain ⟨rom, hrom⟩ := Rom.exists_ofProgram hsize
  refine ⟨program, rom, hwritten, hcompiles.1, hrom, ?_⟩
  intro state cycles count
  exact (Intent.state_iterate_step hcompiles hrom state cycles count).2

/-- A program with a loop and a comment. -/
theorem Assembly.countdown_runs_as_written :
    ∃ program rom,
      (∀ other, Intent.Written ((Text.lines
        "mov r1, #3\nMOV R2, #1\n\nNOT R2 // -2\nADD R1, R2\nJNZ 2".toList).map String.ofList)
          other ↔ other = program) ∧
      (∀ intent ∈ program, intent.Fits) ∧
      Rom.ofProgram (ofText
        "mov r1, #3\nMOV R2, #1\n\nNOT R2 // -2\nADD R1, R2\nJNZ 2").bytes = .ok rom ∧
      ∀ state cycles count, (Machine.step^[count] ⟨rom, state, cycles⟩).state =
        (Intent.step program)^[count] state :=
  ofText_runs_as_written (by decide) (by decide)

end EightBit
