import EightBit.Machine.Trace
import EightBit.Proofs.Disassembly.Reading
import EightBit.Proofs.Text.Columns

/-!
# What a trace line shows

The text of an instruction never fills its column, so every part of a trace line but the number at
its end has the same place for all machines, and what the line shows can be read off these places
again. It is all that the line depends on: machines with the same trace line have the same state,
the same next word and the same counter.
-/

namespace EightBit

namespace Token

/-- A line does not end with a space when a token stands at its end. -/
theorem Whole.getLast?_append_ne {token : Token} (htoken : Whole token) (before : List Char) :
    (before ++ token.toList).getLast? ≠ some ' ' := by
  have hne : token.toList ≠ [] := fun hnil => htoken.1 (String.toList_eq_nil_iff.mp hnil)
  rw [List.getLast?_append_of_ne_nil before hne]
  intro hspace
  have hplain := (htoken.2 ' ' (List.mem_of_getLast? hspace)).1
  exact absurd hplain (by decide)

theorem Prints.getLast?_ne {tokens : List Token} {line : String} (hprints : Prints tokens line) :
    line.toList.getLast? ≠ some ' ' := by
  cases hprints with
  | two _ hsecond =>
      rw [String.toList_append]
      exact hsecond.getLast?_append_ne _
  | three _ _ hthird =>
      rw [String.toList_append]
      exact hthird.getLast?_append_ne _

end Token

namespace Instruction

theorem length_decimal_of_lt {n : Nat} (hn : n < 10) : (Numeral.decimal n).length = 1 := by
  revert n
  decide

theorem length_registerName_of_lt {n : Nat} (hn : n < 10) : (registerName n).length = 2 := by
  rw [registerName, String.length_append, length_decimal_of_lt hn]
  rfl

theorem length_registerName (register : Register) : (registerName register).length = 2 :=
  length_registerName_of_lt (Nat.lt_trans register.isLt (by decide))

theorem length_mnemonic_le (opcode : Opcode) : opcode.mnemonic.length ≤ 3 := by
  cases opcode <;> decide

theorem length_condition_le (condition : Condition) : condition.mnemonic.length ≤ 3 := by
  cases condition <;> decide

/-- A text with two operands of two characters is shorter than its column. -/
theorem length_two_operands_lt {name first second : String} (hname : name.length ≤ 3)
    (hfirst : first.length = 2) (hsecond : second.length = 2) :
    (name ++ " " ++ first ++ ", " ++ second).length < 12 := by
  have hspace : " ".length = 1 := rfl
  have hcomma : ", ".length = 2 := rfl
  simp only [String.length_append, hspace, hcomma]
  omega

theorem length_one_operand_lt {name operand : String} (hname : name.length ≤ 3)
    (hoperand : operand.length ≤ 2) : (name ++ " " ++ operand).length < 12 := by
  have hspace : " ".length = 1 := rfl
  simp only [String.length_append, hspace]
  omega

/-- The text of an instruction that a word stands for does not fill its column. -/
theorem length_text_lt {instruction : Instruction} (hvalid : instruction.Valid) :
    instruction.text.length < 12 := by
  cases instruction using byIntent with
  | jump condition target =>
      have htarget : target.toNat < 8 := hvalid
      have hlength := length_decimal_of_lt (show target.toNat < 10 by omega)
      exact length_one_operand_lt (length_condition_le condition) (by omega)
  | compute operator dest source =>
      have hdest := length_registerName_of_lt (Nat.lt_trans hvalid.1 (by decide))
      rw [text_compute]
      exact length_two_operands_lt (length_mnemonic_le _) hdest (length_registerName _)
  | load dest source value himmediate =>
      have hdest := length_registerName_of_lt (Nat.lt_trans hvalid.1 (by decide))
      obtain ⟨_, hvalue⟩ := immediate?_eq_some_iff.mp himmediate
      have hsource := hvalid.2.1
      have hlength := length_decimal_of_lt (show value.toNat < 10 by omega)
      have hmark : "#".length = 1 := rfl
      have hnumber : ("#" ++ Numeral.decimal value.toNat).length = 2 := by
        rw [String.length_append, hlength, hmark]
      rw [text_load himmediate]
      exact length_two_operands_lt (length_mnemonic_le _) hdest hnumber
  | copy dest source himmediate =>
      have hdest := length_registerName_of_lt (Nat.lt_trans hvalid.1 (by decide))
      rw [text_copy himmediate]
      exact length_two_operands_lt (length_mnemonic_le _) hdest (length_registerName _)
  | compare dest source =>
      have hdest := length_registerName_of_lt (Nat.lt_trans hvalid.1 (by decide))
      exact length_two_operands_lt (length_mnemonic_le _) hdest (length_registerName _)
  | complement dest source =>
      have hdest := length_registerName_of_lt (Nat.lt_trans hvalid.1 (by decide))
      exact length_one_operand_lt (length_mnemonic_le _) (Nat.le_of_eq hdest)

end Instruction

/-! ## Reading a trace line -/

/-- What a trace line shows: the program counter, the word there in hexadecimal and in binary, the
text of its instruction, the registers by number, the flag as a bit and the instructions so far. -/
structure Snapshot where
  pc : Nat
  word : Nat
  bits : Nat
  text : String
  registers : List Nat
  flag : Nat
  cycles : Nat
deriving DecidableEq, Repr

namespace Snapshot

/-- The texts between the fields of a trace line, with their places. -/
def labels : List (Nat × String) :=
  [(0, "PC:"), (5, "  "), (9, "  "), (19, "  "), (33, "R0:"), (38, " R1:"), (44, " R2:"),
   (50, " R3:"), (56, " Z:"), (60, " CYC:")]

/-- Every text between the fields stands at its place. -/
def Labelled (line : List Char) : Prop :=
  ∀ label ∈ labels, Text.column label.1 label.2.length line = label.2.toList

instance (line : List Char) : Decidable (Labelled line) :=
  List.decidableBAll _ labels

/-- What a trace line shows, read off the places of its fields. -/
def ofLine? (line : String) : Option Snapshot := do
  let chars := line.toList
  guard (Labelled chars)
  let pc ← Numeral.number? 16 (Text.column 3 2 chars)
  let word ← Numeral.number? 16 (Text.column 7 2 chars)
  let bits ← Numeral.number? 2 (Text.column 11 8 chars)
  let registers ← [36, 42, 48, 54].mapM fun start =>
    Numeral.number? 16 (Text.column start 2 chars)
  let flag ← Numeral.number? 2 (Text.column 59 1 chars)
  let cycles ← Numeral.number? 10 (chars.drop 65)
  let text := String.ofList (Text.unfilled (Text.column 21 12 chars))
  return { pc, word, bits, text, registers, flag, cycles }

end Snapshot

theorem State.toList_registers (state : State) :
    state.registers.toList = [state.register 0, state.register 1, state.register 2,
      state.register 3] := by
  obtain ⟨⟨⟨values⟩, hsize⟩, pc, zero⟩ := state
  match values, hsize with
  | [_, _, _, _], _ => rfl

namespace Machine

/-- The parts of a trace line that have a fixed width: all but the number at its end. -/
def traceParts (machine : Machine) : List String :=
  ["PC:", Numeral.hex machine.state.pc, "  ", Numeral.hex machine.word, "  ",
    Numeral.binary 8 machine.word, "  ", Text.leftAligned 12 machine.next.text] ++
  (["R0:", " R1:", " R2:", " R3:"].zip machine.state.registers.toList).flatMap
    (fun register => [register.1, Numeral.hex register.2]) ++
  [" Z:", Numeral.bit machine.state.zero, " CYC:"]

theorem traceParts_eq (machine : Machine) :
    machine.traceParts = ["PC:", Numeral.hex machine.state.pc, "  ", Numeral.hex machine.word, "  ",
      Numeral.binary 8 machine.word, "  ", Text.leftAligned 12 machine.next.text,
      "R0:", Numeral.hex (machine.state.register 0),
      " R1:", Numeral.hex (machine.state.register 1),
      " R2:", Numeral.hex (machine.state.register 2),
      " R3:", Numeral.hex (machine.state.register 3),
      " Z:", Numeral.bit machine.state.zero, " CYC:"] := by
  rw [traceParts, State.toList_registers]
  rfl

theorem registerText_eq (state : State) :
    state.registerText = "R0:" ++ Numeral.hex (state.register 0) ++
      " R1:" ++ Numeral.hex (state.register 1) ++ " R2:" ++ Numeral.hex (state.register 2) ++
      " R3:" ++ Numeral.hex (state.register 3) := by
  have hnames : Instruction.registerName 0 = "R0" ∧ Instruction.registerName 1 = "R1" ∧
      Instruction.registerName 2 = "R2" ∧ Instruction.registerName 3 = "R3" := by decide
  apply String.toList_inj.mp
  simp [State.registerText, State.toList_registers, hnames]

theorem toList_trace (machine : Machine) :
    machine.trace.toList = machine.traceParts.flatMap String.toList ++
      (Numeral.decimal machine.cycles.toNat).toList := by
  change ("PC:" ++ Numeral.hex machine.state.pc ++ "  " ++ Numeral.hex machine.word ++ "  " ++
    Numeral.binary 8 machine.word ++ "  " ++ Text.leftAligned 12 machine.next.text ++
    machine.state.registerText ++ " Z:" ++ Numeral.bit machine.state.zero ++ " CYC:" ++
    Numeral.decimal machine.cycles.toNat).toList = _
  rw [registerText_eq]
  simp only [traceParts_eq, String.toList_append, List.flatMap_cons, List.flatMap_nil,
    List.append_assoc, List.append_nil]

theorem length_text_column (machine : Machine) :
    (Text.leftAligned 12 machine.next.text).length = 12 := by
  have hlength := Instruction.length_text_lt (Instruction.decode_valid machine.word)
  rw [← String.length_toList] at hlength ⊢
  exact Text.length_leftAligned (Nat.le_of_lt hlength)

theorem map_length_traceParts (machine : Machine) :
    machine.traceParts.map String.length =
      [3, 2, 2, 2, 2, 8, 2, 12, 3, 2, 4, 2, 4, 2, 4, 2, 3, 1, 5] := by
  have hhex (byte : UInt8) : (Numeral.hex byte).length = 2 := Numeral.length_hex byte
  have hbinary : (Numeral.binary 8 machine.word).length = 8 := Numeral.length_binary 8 _
  have hflag : (Numeral.bit machine.state.zero).length = 1 := Numeral.length_bit _
  simp only [traceParts_eq, List.map_cons, List.map_nil, hhex, hbinary, hflag,
    length_text_column machine]
  rfl

/-- The places of the parts are the same in every trace line. -/
theorem forall₂_column_trace (machine : Machine) :
    List.Forall₂
      (fun place part => Text.column place.1 place.2 machine.trace.toList = part.toList)
      [(0, 3), (3, 2), (5, 2), (7, 2), (9, 2), (11, 8), (19, 2), (21, 12), (33, 3), (36, 2),
        (38, 4), (42, 2), (44, 4), (48, 2), (50, 4), (54, 2), (56, 3), (59, 1), (60, 5)]
      machine.traceParts := by
  have hcolumns := Text.forall₂_column machine.traceParts []
    (Numeral.decimal machine.cycles.toNat).toList
  rw [map_length_traceParts, List.nil_append, ← toList_trace] at hcolumns
  exact hcolumns

theorem drop_trace (machine : Machine) :
    machine.trace.toList.drop 65 = (Numeral.decimal machine.cycles.toNat).toList := by
  have hlength : (machine.traceParts.flatMap String.toList).length = 65 := by
    have hlengths : machine.traceParts.map (fun part => part.toList.length) =
        machine.traceParts.map String.length :=
      List.map_congr_left fun part _ => String.length_toList
    rw [List.length_flatMap, hlengths, map_length_traceParts]
    rfl
  rw [toList_trace, List.drop_left' hlength]

/-- The places of what a line shows of a machine. -/
structure InColumns (machine : Machine) (line : List Char) : Prop where
  length_text : machine.next.text.length < 12
  labels : Snapshot.Labelled line
  pc : Text.column 3 2 line = (Numeral.hex machine.state.pc).toList
  word : Text.column 7 2 line = (Numeral.hex machine.word).toList
  bits : Text.column 11 8 line = (Numeral.binary 8 machine.word).toList
  text : Text.column 21 12 line = (Text.leftAligned 12 machine.next.text).toList
  registers : ∀ register : Register, Text.column (36 + 6 * register) 2 line =
    (Numeral.hex (machine.state.register register)).toList
  flag : Text.column 59 1 line = (Numeral.bit machine.state.zero).toList
  cycles : line.drop 65 = (Numeral.decimal machine.cycles.toNat).toList

theorem inColumns_trace (machine : Machine) : machine.InColumns machine.trace.toList := by
  have hcolumns := forall₂_column_trace machine
  simp only [traceParts_eq, List.forall₂_cons] at hcolumns
  obtain ⟨hpcName, hpc, hgap, hword, hgapAfter, hbits, hgapBefore, htext, hname0, hregister0,
    hname1, hregister1, hname2, hregister2, hname3, hregister3, hflagName, hflag, hcyclesName,
    -⟩ := hcolumns
  have hlabelled : Snapshot.Labelled machine.trace.toList := by
    simp only [Snapshot.Labelled, Snapshot.labels, List.forall_mem_cons]
    exact ⟨hpcName, hgap, hgapAfter, hgapBefore, hname0, hname1, hname2, hname3, hflagName,
      hcyclesName, List.forall_mem_nil _⟩
  have hregisters : ∀ register : Register,
      Text.column (36 + 6 * register) 2 machine.trace.toList =
        (Numeral.hex (machine.state.register register)).toList
    | 0 => hregister0
    | 1 => hregister1
    | 2 => hregister2
    | 3 => hregister3
  exact ⟨Instruction.length_text_lt (Instruction.decode_valid machine.word), hlabelled, hpc,
    hword, hbits, htext, hregisters, hflag, drop_trace machine⟩

/-- What the trace line of a machine has to show. -/
def snapshot (machine : Machine) : Snapshot where
  pc := machine.state.pc.toNat
  word := machine.word.toNat
  bits := machine.word.toNat
  text := machine.next.text
  registers := machine.state.registers.toList.map UInt8.toNat
  flag := machine.state.zero.toNat
  cycles := machine.cycles.toNat

theorem unfilled_text (machine : Machine) :
    String.ofList (Text.unfilled (Text.leftAligned 12 machine.next.text).toList) =
      machine.next.text := by
  obtain ⟨_, hprints, _⟩ := Instruction.exists_prints (Instruction.decode_valid machine.word)
  rw [next, Text.unfilled_leftAligned hprints.getLast?_ne, String.ofList_toList]

/-- A trace line shows its machine. -/
theorem ofLine?_trace (machine : Machine) :
    Snapshot.ofLine? machine.trace = some machine.snapshot := by
  have hcolumns := inColumns_trace machine
  have hregister0 : Text.column 36 2 machine.trace.toList = _ := hcolumns.registers 0
  have hregister1 : Text.column 42 2 machine.trace.toList = _ := hcolumns.registers 1
  have hregister2 : Text.column 48 2 machine.trace.toList = _ := hcolumns.registers 2
  have hregister3 : Text.column 54 2 machine.trace.toList = _ := hcolumns.registers 3
  have hregisters : ([36, 42, 48, 54].mapM fun start =>
      Numeral.number? 16 (Text.column start 2 machine.trace.toList)) =
        some (machine.state.registers.toList.map UInt8.toNat) := by
    rw [State.toList_registers]
    simp [hregister0, hregister1, hregister2, hregister3, Numeral.number?_hex]
  simp only [Snapshot.ofLine?, hcolumns.pc, hcolumns.word, hcolumns.bits, hcolumns.flag,
    hcolumns.text, hcolumns.cycles, hregisters, Numeral.number?_hex, Numeral.number?_binary,
    Numeral.number?_bit, Numeral.number?_decimal, unfilled_text, guard, if_pos hcolumns.labels]
  rfl

/-! ## Machines with the same trace line -/

/-- A snapshot shows the whole state, the word and the counter. -/
theorem eq_of_snapshot_eq {left right : Machine} (hsnapshot : left.snapshot = right.snapshot) :
    left.state = right.state ∧ left.word = right.word ∧ left.cycles = right.cycles := by
  have hpc : left.state.pc = right.state.pc :=
    UInt8.toNat_inj.mp (congrArg Snapshot.pc hsnapshot)
  have hregisters : left.state.registers = right.state.registers := by
    apply Vector.toList_inj.mp
    have htoNat : Function.Injective UInt8.toNat := fun _ _ => UInt8.toNat_inj.mp
    exact htoNat.list_map (congrArg Snapshot.registers hsnapshot)
  have hbit : ∀ flag other : Bool, flag.toNat = other.toNat → flag = other := by decide
  have hzero : left.state.zero = right.state.zero :=
    hbit _ _ (congrArg Snapshot.flag hsnapshot)
  exact ⟨State.ext hregisters hpc hzero, UInt8.toNat_inj.mp (congrArg Snapshot.word hsnapshot),
    UInt32.toNat_inj.mp (congrArg Snapshot.cycles hsnapshot)⟩

/-- In every trace line the text of the instruction leaves room in its column, the registers begin
at the 33rd place and all other fields have a fixed place as well. The trace lines of two machines
are the same exactly when the machines have the same registers, program counter and flag, the same
word there and the same counter. -/
theorem trace_eq_iff (left right : Machine) :
    (left.InColumns left.trace.toList ∧ Text.column 33 3 left.trace.toList = "R0:".toList) ∧
      (left.trace = right.trace ↔
        left.state = right.state ∧ left.word = right.word ∧ left.cycles = right.cycles) := by
  have hcolumns := inColumns_trace left
  refine ⟨⟨hcolumns, hcolumns.labels (33, "R0:") (by decide)⟩, ?_, ?_⟩
  · intro htrace
    apply eq_of_snapshot_eq
    apply Option.some_injective
    rw [← ofLine?_trace left, ← ofLine?_trace right, htrace]
  · rintro ⟨hstate, hword, hcycles⟩
    have hnext : left.next = right.next := congrArg Instruction.decode hword
    have hparts : left.traceParts = right.traceParts := by
      rw [traceParts, traceParts, hstate, hword, hnext]
    apply String.toList_inj.mp
    rw [toList_trace, toList_trace, hparts, hcycles]

end Machine

end EightBit
