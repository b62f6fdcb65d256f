import EightBit.CommandLine.Command
import EightBit.Proofs.Results

/-!
# From arguments to a command

What the settings of an accepted command line hold of its items, and where in its arguments the name
of the command stands.
-/

namespace EightBit.CommandLine

/-! ## Settings -/

namespace Settings

variable {grammar : Grammar} {settings after : Settings} {switch : Switch} {text path : String}

theorem value?_given (settings : Settings) (switch other : Switch) (text : String) :
    ({ settings with given := (switch, text) :: settings.given } : Settings).value? other =
      if other = switch then some text else settings.value? other := by
  rw [value?, value?, List.lookup_cons]
  by_cases hother : other = switch
  · rw [if_pos hother, beq_iff_eq.mpr hother]
  · rw [if_neg hother, beq_eq_false_iff_ne.mpr hother]

theorem has_eq_true_iff : settings.has switch = true ↔ ∃ text, settings.value? switch = some text :=
  Option.isSome_iff_exists

theorem give_eq_ok_iff : settings.give switch text = .ok after ↔
    settings.value? switch = none ∧
      after = { settings with given := (switch, text) :: settings.given } := by
  rw [give, has]
  cases settings.value? switch with
  | none => simp [eq_comm]
  | some value => simp

theorem giveProgram_eq_ok_iff : settings.giveProgram grammar path = .ok after ↔
    grammar.takesProgram = true ∧ settings.program? = none ∧ path ≠ "" ∧
      after = { settings with program? := some path } := by
  rw [giveProgram]
  by_cases hpath : path = ""
  · cases grammar.takesProgram <;> cases settings.program? <;> simp [hpath]
  · cases grammar.takesProgram <;> cases settings.program? <;> simp [hpath, eq_comm]

/-- An accepted item gives a switch, which has not been given before, or the program. -/
theorem accept_eq_ok {item : Item} (haccept : settings.accept grammar item = .ok after) :
    (∃ switch text, (item = .flag switch ∧ text = "" ∨ item = .setting switch text) ∧
        settings.value? switch = none ∧
        after = { settings with given := (switch, text) :: settings.given }) ∨
      ∃ path, item = .operand path ∧ after = { settings with program? := some path } := by
  cases item with
  | flag switch =>
      have hgive : settings.give switch "" = .ok after := by
        cases switch with
        | help => cases haccept
        | version => cases haccept
        | _ => exact haccept
      obtain ⟨hfresh, hafter⟩ := give_eq_ok_iff.mp hgive
      exact Or.inl ⟨switch, "", Or.inl ⟨rfl, rfl⟩, hfresh, hafter⟩
  | setting switch text =>
      rw [accept] at haccept
      split at haccept
      · obtain ⟨hfresh, hafter⟩ := give_eq_ok_iff.mp haccept
        exact Or.inl ⟨switch, text, Or.inr rfl, hfresh, hafter⟩
      · cases haccept
  | operand path =>
      obtain ⟨_, _, _, hafter⟩ := giveProgram_eq_ok_iff.mp haccept
      exact Or.inr ⟨path, rfl, hafter⟩
  | misuse cause => cases haccept

theorem acceptAll_cons (grammar : Grammar) (settings : Settings) (item : Item)
    (rest : List Item) :
    settings.acceptAll grammar (item :: rest) =
      (settings.accept grammar item >>= fun next => next.acceptAll grammar rest) := by
  rw [acceptAll, List.foldlM_cons]
  rfl

theorem acceptAll_append (grammar : Grammar) (settings : Settings) (front back : List Item) :
    settings.acceptAll grammar (front ++ back) =
      (settings.acceptAll grammar front >>= fun next => next.acceptAll grammar back) := by
  rw [acceptAll, List.foldlM_append]
  rfl

/-- A switch with a value has the one that an item gives it. -/
theorem value?_acceptAll {items : List Item} (hflag : Item.flag switch ∉ items)
    (haccept : settings.acceptAll grammar items = .ok after) :
    after.value? switch = some text ↔
      settings.value? switch = some text ∨ Item.setting switch text ∈ items := by
  induction items generalizing settings with
  | nil =>
      cases haccept
      simp
  | cons item rest ih =>
      rw [List.mem_cons, not_or] at hflag
      rw [acceptAll_cons] at haccept
      obtain ⟨next, hnext, hrest⟩ := bind_eq_ok_iff.mp haccept
      rw [ih hflag.2 hrest, List.mem_cons, ← or_assoc]
      refine or_congr_left ?_
      rcases accept_eq_ok hnext with ⟨other, value, hitem, hfresh, rfl⟩ | ⟨path, rfl, rfl⟩
      · rw [value?_given]
        by_cases hother : switch = other
        · subst hother
          rcases hitem with ⟨rfl, _⟩ | rfl
          · exact absurd rfl hflag.1
          · simp [hfresh, eq_comm]
        · rw [if_neg hother]
          rcases hitem with ⟨rfl, _⟩ | rfl <;> simp [hother]
      · simp [value?]

end Settings

/-! ## Items -/

namespace Grammar

variable {grammar : Grammar} {switch : Switch}

theorem takesValue_of_mem_namedItems {name : String} {value? : Option String}
    (hflag : .flag switch ∈ (grammar.namedItems name value?).1) : switch.takesValue = false := by
  rw [namedItems] at hflag
  split at hflag
  · simp at hflag
  · split at hflag
    · simp at hflag
    · simp at hflag
    · simp at hflag
    · rename_i htakes
      obtain rfl : switch = _ := by simpa using hflag
      exact htakes

theorem takesValue_of_mem_letteredItems {letters : List Char}
    (hflag : .flag switch ∈ (grammar.letteredItems letters).1) : switch.takesValue = false := by
  induction letters with
  | nil => exact absurd hflag List.not_mem_nil
  | cons letter rest ih =>
      rw [letteredItems] at hflag
      split at hflag
      · simp at hflag
      · rename_i found _
        split at hflag
        · split at hflag <;> simp at hflag
        · rename_i htakes
          rcases List.mem_cons.mp hflag with hfirst | hrest
          · cases hfirst
            exact Bool.not_eq_true _ ▸ htakes
          · exact ih hrest

theorem takesValue_of_mem_argumentItems {argument : Argument}
    (hflag : .flag switch ∈ (grammar.argumentItems argument).1) : switch.takesValue = false := by
  cases argument with
  | terminator => exact absurd hflag List.not_mem_nil
  | named name value? => exact takesValue_of_mem_namedItems hflag
  | lettered letters => exact takesValue_of_mem_letteredItems hflag
  | plain text => simp [argumentItems] at hflag

theorem itemsAfter_value {text value : String} (hplain : Argument.ofText text = .plain value)
    (grammar : Grammar) (switch : Switch) (rest : List String) :
    grammar.itemsAfter (some switch) (text :: rest) =
      .setting switch value :: grammar.itemsAfter none rest := by
  rw [itemsAfter, hplain]

theorem itemsAfter_noValue {text : String} (hplain : ∀ value, Argument.ofText text ≠ .plain value)
    (grammar : Grammar) (switch : Switch) (rest : List String) :
    grammar.itemsAfter (some switch) (text :: rest) = [.misuse (.noValue switch)] := by
  rw [itemsAfter]
  split
  · rename_i value hargument
    exact absurd hargument (hplain value)
  · rfl

theorem itemsAfter_argument {text : String} (hend : Argument.ofText text ≠ .terminator)
    (grammar : Grammar) (rest : List String) :
    grammar.itemsAfter none (text :: rest) =
      (grammar.argumentItems (Argument.ofText text)).1 ++
        grammar.itemsAfter (grammar.argumentItems (Argument.ofText text)).2 rest := by
  rw [itemsAfter]
  split
  · rename_i hargument
    exact absurd hargument hend
  · rfl

/-- A switch is never without the value that it takes. -/
theorem takesValue_of_mem_itemsAfter {waiting? : Option Switch} {arguments : List String}
    (hflag : .flag switch ∈ grammar.itemsAfter waiting? arguments) :
    switch.takesValue = false := by
  fun_induction itemsAfter grammar waiting? arguments with
  | case1 => exact absurd hflag List.not_mem_nil
  | case2 => simp at hflag
  | case3 waiting text rest value hvalue ih =>
      rcases List.mem_cons.mp hflag with hfirst | hrest
      · cases hfirst
      · exact ih hrest
  | case4 => simp at hflag
  | case5 => simp at hflag
  | case6 text rest items next _ hitems ih =>
      rcases List.mem_append.mp hflag with hfirst | hrest
      · have hargument : .flag switch ∈ (grammar.argumentItems (Argument.ofText text)).1 := by
          rw [hitems]
          exact hfirst
        exact takesValue_of_mem_argumentItems hargument
      · exact ih hrest

end Grammar

/-! ## The name of a command -/

theorem eq_of_plain {text name : String} (hplain : Argument.ofText text = .plain name) :
    name = text := by
  unfold Argument.ofText at hplain
  split at hplain
  · cases hplain
  · dsimp only at hplain
    split at hplain <;> cases hplain
  · cases hplain
  · cases hplain
    rfl

namespace Invocation

/-- The argument can stand in front of the name of a command. -/
def Outer (text : String) : Prop :=
  Argument.ofText text ≠ .terminator ∧ ∃ settings next : Settings,
    settings.acceptAll outerGrammar (outerGrammar.argumentItems (Argument.ofText text)).1 =
      .ok next

theorem ofArgumentsAfter_switch {text : String}
    (hplain : ∀ name, Argument.ofText text ≠ .plain name)
    (hend : Argument.ofText text ≠ .terminator) (outer : Settings) (rest : List String) :
    ofArgumentsAfter outer (text :: rest) =
      (outer.acceptAll outerGrammar (outerGrammar.argumentItems (Argument.ofText text)).1 >>=
        fun next => ofArgumentsAfter next rest) := by
  rw [ofArgumentsAfter]
  split
  · rename_i hargument
    exact absurd hargument hend
  · rename_i name hargument
    exact absurd hargument (hplain name)
  · rfl

/-- The name of the command stands behind other switches, and what follows the name is given to the
command. -/
theorem exists_name {before : Settings} {arguments : List String} {invocation : Invocation}
    (harguments : ofArgumentsAfter before arguments = .ok invocation) :
    ∃ front name rest outer, arguments = front ++ name :: rest ∧ (∀ text ∈ front, Outer text) ∧
      Argument.ofText name = .plain name ∧
      ∀ tail, ofArgumentsAfter before (front ++ name :: tail) = ofName outer name tail := by
  induction arguments generalizing before with
  | nil => cases harguments
  | cons text rest ih =>
      by_cases hend : Argument.ofText text = .terminator
      · rw [ofArgumentsAfter, hend] at harguments
        cases harguments
      · by_cases hplain : ∃ name, Argument.ofText text = .plain name
        · obtain ⟨name, hname⟩ := hplain
          obtain rfl := eq_of_plain hname
          refine ⟨[], name, rest, before, rfl, List.forall_mem_nil _, hname, fun tail => ?_⟩
          rw [List.nil_append, ofArgumentsAfter, hname]
        · rw [not_exists] at hplain
          rw [ofArgumentsAfter_switch hplain hend] at harguments
          obtain ⟨next, hnext, hrest⟩ := bind_eq_ok_iff.mp harguments
          obtain ⟨front, name, back, outer, rfl, hfront, hname, htail⟩ := ih hrest
          refine ⟨text :: front, name, back, outer, rfl, ?_, hname, fun tail => ?_⟩
          · rw [List.forall_mem_cons]
            exact ⟨⟨hend, before, next, hnext⟩, hfront⟩
          · rw [List.cons_append, ofArgumentsAfter_switch hplain hend, hnext]
            exact htail tail

/-- What an accepted command line gives to its command. -/
theorem exists_settings {arguments : List String} {invocation : Invocation}
    (harguments : ofArguments arguments = .ok invocation) :
    ∃ front name rest outer commandName settings, arguments = front ++ name :: rest ∧
      (∀ text ∈ front, Outer text) ∧ Argument.ofText name = .plain name ∧
      (∀ tail, ofArguments (front ++ name :: tail) = ofName outer name tail) ∧
      CommandName.ofText? name = some commandName ∧
      ({} : Settings).acceptAll commandName.grammar (commandName.grammar.items rest) =
        .ok settings ∧
      settings.command commandName = .ok invocation.command ∧
      invocation.verbose = (outer.has .verbose || settings.has .verbose) := by
  obtain ⟨front, name, rest, outer, rfl, hfront, hplain, htail⟩ := exists_name harguments
  rw [ofArguments, htail, ofName] at harguments
  split at harguments
  · rename_i commandName hname
    obtain ⟨settings, hsettings, hrest⟩ := bind_eq_ok_iff.mp harguments
    obtain ⟨command, hcommand, hresult⟩ := bind_eq_ok_iff.mp hrest
    cases hresult
    exact ⟨front, name, rest, outer, commandName, settings, rfl, hfront, hplain, htail, hname,
      hsettings, hcommand, rfl⟩
  · split at harguments <;> cases harguments

end Invocation

theorem Command.ofArguments_eq_ok_iff {arguments : List String} {command : Command} :
    ofArguments arguments = .ok command ↔
      ∃ verbose, Invocation.ofArguments arguments = .ok ⟨command, verbose⟩ := by
  rw [ofArguments, map_eq_ok_iff]
  constructor
  · rintro ⟨⟨_, verbose⟩, harguments, rfl⟩
    exact ⟨verbose, harguments⟩
  · rintro ⟨verbose, harguments⟩
    exact ⟨_, harguments, rfl⟩

namespace Settings

variable {settings : Settings} {name : CommandName} {program output path : String}
  {options : RunOptions} {traced : Bool}

theorem program_eq_ok_iff : settings.program = .ok path ↔ settings.program? = some path := by
  rw [Settings.program]
  cases settings.program? <;> simp

theorem command_eq_assemble (hcommand : settings.command name = .ok (.assemble program output)) :
    name = .assemble ∧ settings.program? = some program ∧ settings.output = output := by
  cases name with
  | assemble =>
      obtain ⟨path, hpath, hresult⟩ := bind_eq_ok_iff.mp hcommand
      cases hresult
      exact ⟨rfl, program_eq_ok_iff.mp hpath, rfl⟩
  | run =>
      obtain ⟨path, _, hcommand⟩ := bind_eq_ok_iff.mp hcommand
      obtain ⟨options, _, hresult⟩ := bind_eq_ok_iff.mp hcommand
      cases hresult
  | verify => cases hcommand

theorem command_eq_run_iff : settings.command name = .ok (.run program options traced) ↔
    name = .run ∧ settings.program? = some program ∧ settings.runOptions = .ok options ∧
      settings.has .trace = traced := by
  cases name with
  | assemble =>
      refine iff_of_false (fun hcommand => ?_) nofun
      obtain ⟨path, _, hresult⟩ := bind_eq_ok_iff.mp hcommand
      cases hresult
  | run =>
      rw [← program_eq_ok_iff]
      constructor
      · intro hcommand
        obtain ⟨path, hpath, hcommand⟩ := bind_eq_ok_iff.mp hcommand
        obtain ⟨found, hoptions, hresult⟩ := bind_eq_ok_iff.mp hcommand
        cases hresult
        exact ⟨rfl, hpath, hoptions, rfl⟩
      · rintro ⟨_, hpath, hoptions, rfl⟩
        exact bind_eq_ok_iff.mpr ⟨_, hpath, bind_eq_ok_iff.mpr ⟨_, hoptions, rfl⟩⟩
  | verify => exact iff_of_false nofun nofun

theorem lt_of_natBelow? {limit n : Nat} {text : String} (hn : natBelow? limit text = some n) :
    n < limit :=
  of_decide_eq_true (Option.filter_eq_some_iff.mp hn).2

/-- A run from the command line has a budget of 32 bits. -/
theorem budget_lt (hoptions : settings.runOptions = .ok options) :
    options.budget < UInt32.size := by
  obtain ⟨halt, _, hbudget⟩ := bind_eq_ok_iff.mp hoptions
  split at hbudget
  · rename_i budget hnumber
    cases hbudget
    obtain ⟨text, _, hread⟩ := Option.bind_eq_some_iff.mp hnumber
    exact lt_of_natBelow? hread
  · cases hbudget
    exact show 50 < UInt32.size by decide

end Settings

theorem CommandName.eq_assemble {name : String}
    (hname : CommandName.ofText? name = some .assemble) : name = "assemble" := by
  unfold ofText? at hname
  split at hname
  · rfl
  · cases hname
  · cases hname
  · cases hname

end EightBit.CommandLine
