import EightBit.Proofs.CommandLine.Items
import Mathlib.Tactic.ByContra

/-!
# The switch for traces

A run is traced when `--trace` stands among its arguments, in front of a `--` if there is one, and
without it the arguments are those of the same run, not traced.
-/

namespace EightBit.CommandLine

/-! ## Settings without the switch -/

namespace Settings

variable {grammar : Grammar} {settings plain after : Settings}

/-- The same settings, but for the switch for traces, which only the first have. -/
structure Untraced (settings plain : Settings) : Prop where
  program : plain.program? = settings.program?
  value : ∀ switch ≠ .trace, plain.value? switch = settings.value? switch
  traced : settings.has .trace = true
  untraced : plain.value? .trace = none

theorem Untraced.ne_trace (huntraced : Untraced settings plain) {switch : Switch}
    (hfresh : settings.value? switch = none) : switch ≠ .trace := by
  rintro rfl
  have htraced := huntraced.traced
  rw [has, hfresh] at htraced
  cases htraced

theorem Untraced.give (huntraced : Untraced settings plain) {switch : Switch} {text : String}
    (hgive : settings.give switch text = .ok after) :
    ∃ next, plain.give switch text = .ok next ∧ Untraced after next := by
  obtain ⟨hfresh, rfl⟩ := give_eq_ok_iff.mp hgive
  have hne := huntraced.ne_trace hfresh
  refine ⟨_, give_eq_ok_iff.mpr ⟨(huntraced.value switch hne).trans hfresh, rfl⟩, ?_⟩
  constructor
  · exact huntraced.program
  · intro other hother
    rw [value?_given, value?_given, huntraced.value other hother]
  · rw [has, value?_given, if_neg hne.symm]
    exact huntraced.traced
  · rw [value?_given, if_neg hne.symm]
    exact huntraced.untraced

theorem Untraced.giveProgram (huntraced : Untraced settings plain) {path : String}
    (hgive : settings.giveProgram grammar path = .ok after) :
    ∃ next, plain.giveProgram grammar path = .ok next ∧ Untraced after next := by
  obtain ⟨htakes, hfresh, hpath, rfl⟩ := giveProgram_eq_ok_iff.mp hgive
  refine ⟨_, giveProgram_eq_ok_iff.mpr ⟨htakes, huntraced.program.trans hfresh, hpath, rfl⟩, ?_⟩
  exact ⟨rfl, huntraced.value, huntraced.traced, huntraced.untraced⟩

/-- What is accepted after the switch is accepted without it. -/
theorem Untraced.accept (huntraced : Untraced settings plain) {item : Item}
    (haccept : settings.accept grammar item = .ok after) :
    ∃ next, plain.accept grammar item = .ok next ∧ Untraced after next := by
  cases item with
  | flag switch =>
      cases switch with
      | help => cases haccept
      | version => cases haccept
      | _ => exact huntraced.give haccept
  | setting switch text =>
      rw [Settings.accept] at haccept ⊢
      split at haccept
      · rename_i hadmits
        rw [if_pos hadmits]
        exact huntraced.give haccept
      · cases haccept
  | operand path => exact huntraced.giveProgram haccept
  | misuse cause => cases haccept

theorem Untraced.acceptAll {items : List Item} (huntraced : Untraced settings plain)
    (haccept : settings.acceptAll grammar items = .ok after) :
    ∃ next, plain.acceptAll grammar items = .ok next ∧ Untraced after next := by
  induction items generalizing settings plain with
  | nil =>
      cases haccept
      exact ⟨plain, rfl, huntraced⟩
  | cons item rest ih =>
      rw [acceptAll_cons] at haccept ⊢
      obtain ⟨middle, hmiddle, hrest⟩ := bind_eq_ok_iff.mp haccept
      obtain ⟨other, hother, hrelated⟩ := huntraced.accept hmiddle
      obtain ⟨next, hnext, hafter⟩ := ih hrelated hrest
      exact ⟨next, bind_eq_ok_iff.mpr ⟨other, hother, hnext⟩, hafter⟩

/-- The switch can be taken out of what is accepted. -/
theorem acceptAll_without_trace {front back : List Item}
    (haccept : settings.acceptAll grammar (front ++ .flag .trace :: back) = .ok after) :
    ∃ next, settings.acceptAll grammar (front ++ back) = .ok next ∧ Untraced after next := by
  rw [acceptAll_append] at haccept ⊢
  obtain ⟨middle, hmiddle, hrest⟩ := bind_eq_ok_iff.mp haccept
  rw [acceptAll_cons] at hrest
  obtain ⟨traced, htraced, hback⟩ := bind_eq_ok_iff.mp hrest
  obtain ⟨hfresh, rfl⟩ := give_eq_ok_iff.mp htraced
  have huntraced : Untraced { middle with given := (.trace, "") :: middle.given } middle := by
    refine ⟨rfl, fun switch hswitch => ?_, ?_, hfresh⟩
    · rw [value?_given, if_neg hswitch]
    · rw [has, value?_given, if_pos rfl]
      rfl
  obtain ⟨next, hnext, hafter⟩ := huntraced.acceptAll hback
  exact ⟨next, bind_eq_ok_iff.mpr ⟨middle, hmiddle, hnext⟩, hafter⟩

theorem Untraced.has_eq (huntraced : Untraced settings plain) (switch : Switch)
    (hne : switch ≠ .trace) : plain.has switch = settings.has switch := by
  rw [has, has, huntraced.value switch hne]

theorem Untraced.runOptions (huntraced : Untraced settings plain) :
    plain.runOptions = settings.runOptions := by
  have hnumber (switch : Switch) (hne : switch ≠ .trace) :
      plain.number? switch = settings.number? switch := by
    rw [number?, number?, huntraced.value switch hne]
  simp only [Settings.runOptions, halt, huntraced.has_eq .haltSelfLoop (by decide),
    huntraced.has_eq .haltAddress (by decide), huntraced.has_eq .haltAfter (by decide),
    hnumber .haltAddress (by decide), hnumber .haltAfter (by decide),
    hnumber .budget (by decide)]

theorem Untraced.command {program : String} {options : RunOptions} {traced : Bool}
    (huntraced : Untraced settings plain)
    (hcommand : settings.command .run = .ok (.run program options traced)) :
    traced = true ∧ plain.command .run = .ok (.run program options false) := by
  obtain ⟨_, hprogram, hoptions, rfl⟩ := command_eq_run_iff.mp hcommand
  refine ⟨huntraced.traced, command_eq_run_iff.mpr ⟨rfl, ?_, ?_, ?_⟩⟩
  · rw [huntraced.program, hprogram]
  · rw [huntraced.runOptions, hoptions]
  · rw [has, huntraced.untraced]
    rfl

end Settings

/-! ## Arguments without the switch -/

theorem Settings.misuse_not_mem {grammar : Grammar} {settings after : Settings}
    {items : List Item} (haccept : settings.acceptAll grammar items = .ok after) (cause : Misuse) :
    .misuse cause ∉ items := by
  intro hmem
  obtain ⟨front, back, rfl⟩ := List.append_of_mem hmem
  rw [acceptAll_append] at haccept
  obtain ⟨middle, _, hrest⟩ := bind_eq_ok_iff.mp haccept
  rw [acceptAll_cons] at hrest
  obtain ⟨_, hmisuse, _⟩ := bind_eq_ok_iff.mp hrest
  cases hmisuse

theorem eq_of_terminator {text : String} (hend : Argument.ofText text = .terminator) :
    text = "--" := by
  unfold Argument.ofText at hend
  split at hend
  · rename_i hchars
    exact String.toList_inj.mp hchars
  · dsimp only at hend
    split at hend <;> cases hend
  · cases hend
  · cases hend

theorem ofText_trace : Argument.ofText "--trace" = .named "trace" none := by
  decide

/-- In front of `--` the switch is an item of its own, unless a value is missing. -/
theorem exists_items_trace {front : List String} (hend : "--" ∉ front) (waiting? : Option Switch)
    (back : List String) :
    (∃ cause, .misuse cause ∈
        CommandName.run.grammar.itemsAfter waiting? (front ++ "--trace" :: back)) ∨
      ∃ before after,
        CommandName.run.grammar.itemsAfter waiting? (front ++ "--trace" :: back) =
          before ++ .flag .trace :: after ∧
        CommandName.run.grammar.itemsAfter waiting? (front ++ back) = before ++ after := by
  induction front generalizing waiting? with
  | nil =>
      cases waiting? with
      | none =>
          refine Or.inr ⟨[], CommandName.run.grammar.itemsAfter none back, ?_, rfl⟩
          rw [List.nil_append, Grammar.itemsAfter_argument (by decide), ofText_trace]
          rfl
      | some switch =>
          refine Or.inl ⟨.noValue switch, ?_⟩
          rw [List.nil_append, Grammar.itemsAfter_noValue (by rw [ofText_trace]; exact nofun)]
          exact List.mem_singleton_self _
  | cons text rest ih =>
      rw [List.mem_cons, not_or] at hend
      rw [List.cons_append, List.cons_append]
      cases waiting? with
      | none =>
          have hargument : Argument.ofText text ≠ .terminator := fun hargument =>
            hend.1 (eq_of_terminator hargument).symm
          rw [Grammar.itemsAfter_argument hargument, Grammar.itemsAfter_argument hargument]
          generalize CommandName.run.grammar.argumentItems (Argument.ofText text) = found
          rcases ih hend.2 found.2 with ⟨cause, hcause⟩ | ⟨before, after, htraced, hplain⟩
          · exact Or.inl ⟨cause, List.mem_append_right _ hcause⟩
          · refine Or.inr ⟨found.1 ++ before, after, ?_, ?_⟩
            · rw [htraced, List.append_assoc]
            · rw [hplain, List.append_assoc]
      | some switch =>
          by_cases hvalue : ∃ value, Argument.ofText text = .plain value
          · obtain ⟨value, hvalue⟩ := hvalue
            rw [Grammar.itemsAfter_value hvalue, Grammar.itemsAfter_value hvalue]
            rcases ih hend.2 none with ⟨cause, hcause⟩ | ⟨before, after, htraced, hplain⟩
            · exact Or.inl ⟨cause, List.mem_cons_of_mem _ hcause⟩
            · refine Or.inr ⟨.setting switch value :: before, after, ?_, ?_⟩
              · rw [htraced, List.cons_append]
              · rw [hplain, List.cons_append]
          · refine Or.inl ⟨.noValue switch, ?_⟩
            rw [Grammar.itemsAfter_noValue (not_exists.mp hvalue)]
            exact List.mem_singleton_self _

/-- The switch for traces cannot stand in front of the name of a command. -/
theorem Invocation.not_outer_trace : ¬Invocation.Outer "--trace" := by
  rintro ⟨_, settings, next, haccept⟩
  rw [ofText_trace] at haccept
  cases haccept

theorem exists_behind {α : Type} {before after front rest : List α} {x name : α}
    (hsplit : before ++ x :: after = front ++ name :: rest) (hfront : x ∉ front)
    (hname : x ≠ name) :
    ∃ back, before = front ++ name :: back ∧ rest = back ++ x :: after := by
  induction front generalizing before with
  | nil =>
      cases before with
      | nil => exact absurd (List.cons.inj hsplit).1 hname
      | cons first back =>
          obtain ⟨rfl, hrest⟩ := List.cons.inj hsplit
          exact ⟨back, rfl, hrest.symm⟩
  | cons first front ih =>
      rw [List.mem_cons, not_or] at hfront
      cases before with
      | nil => exact absurd (List.cons.inj hsplit).1 hfront.1
      | cons other before =>
          obtain ⟨rfl, htail⟩ := List.cons.inj hsplit
          obtain ⟨back, rfl, hrest⟩ := ih htail hfront.2
          exact ⟨back, rfl, hrest⟩

/-- Without the switch for traces a command line is the same command, but not traced, with a log or
without one as before. -/
theorem Invocation.ofArguments_without_trace {before after : List String} {program : String}
    {options : RunOptions} {traced verbose : Bool} (hend : "--" ∉ before)
    (harguments : ofArguments (before ++ "--trace" :: after) =
      .ok ⟨.run program options traced, verbose⟩) :
    traced = true ∧ ofArguments (before ++ after) = .ok ⟨.run program options false, verbose⟩ := by
  obtain ⟨front, name, rest, outer, commandName, settings, hsplit, hfront, hplain, htail, hname,
    hsettings, hcommand, hverbose⟩ := exists_settings harguments
  dsimp only at hcommand hverbose
  obtain ⟨rfl, _⟩ := Settings.command_eq_run_iff.mp hcommand
  obtain ⟨back, rfl, rfl⟩ : ∃ back, before = front ++ name :: back ∧
      rest = back ++ "--trace" :: after := by
    refine exists_behind hsplit (fun hmem => not_outer_trace (hfront _ hmem)) ?_
    rintro rfl
    rw [ofText_trace] at hplain
    cases hplain
  have hback : "--" ∉ back := fun hmem =>
    hend (List.mem_append_right _ (List.mem_cons_of_mem _ hmem))
  rw [Grammar.items] at hsettings
  rcases exists_items_trace hback none after with
    ⟨cause, hcause⟩ | ⟨items, others, htraced, huntraced⟩
  · exact absurd hcause (Settings.misuse_not_mem hsettings cause)
  · rw [htraced] at hsettings
    obtain ⟨next, hnext, hrelated⟩ := Settings.acceptAll_without_trace hsettings
    obtain ⟨htrue, hrun⟩ := hrelated.command hcommand
    refine ⟨htrue, ?_⟩
    rw [List.append_assoc, List.cons_append, htail, ofName, hname]
    rw [← huntraced] at hnext
    refine bind_eq_ok_iff.mpr ⟨next, hnext, bind_eq_ok_iff.mpr ⟨_, hrun, ?_⟩⟩
    rw [hrelated.has_eq .verbose (by decide), ← hverbose]
    rfl

/-! ## Where the switch stands -/

theorem Settings.admits_of_mem {grammar : Grammar} {settings after : Settings} {items : List Item}
    (haccept : settings.acceptAll grammar items = .ok after) {switch : Switch} {text : String}
    (hmem : .setting switch text ∈ items) : switch.admits text = true := by
  obtain ⟨front, back, rfl⟩ := List.append_of_mem hmem
  rw [acceptAll_append] at haccept
  obtain ⟨middle, _, hrest⟩ := bind_eq_ok_iff.mp haccept
  rw [acceptAll_cons] at hrest
  obtain ⟨next, hsetting, _⟩ := bind_eq_ok_iff.mp hrest
  rw [accept] at hsetting
  split at hsetting
  · assumption
  · cases hsetting

/-- Settings with the switch come from items with it. -/
theorem Settings.flag_trace_mem {grammar : Grammar} {after : Settings} {items : List Item}
    (haccept : ({} : Settings).acceptAll grammar items = .ok after)
    (htrace : after.has .trace = true) : .flag .trace ∈ items := by
  obtain ⟨text, htext⟩ := has_eq_true_iff.mp htrace
  by_contra hflag
  rcases (value?_acceptAll hflag haccept).mp htext with hgiven | hsetting
  · cases hgiven
  · exact absurd (admits_of_mem haccept hsetting) Bool.false_ne_true

theorem eq_of_named {text name : String} (hnamed : Argument.ofText text = .named name none) :
    text = "--" ++ name := by
  unfold Argument.ofText at hnamed
  split at hnamed
  · cases hnamed
  · rename_i rest _ hchars
    dsimp only at hnamed
    split at hnamed
    · rename_i hvalue
      cases hnamed
      have hrest := List.takeWhile_append_dropWhile (p := (· ≠ '=')) (l := rest)
      rw [hvalue, List.append_nil] at hrest
      apply String.toList_inj.mp
      rw [hrest, hchars, String.toList_append, String.toList_ofList (l := rest)]
      rfl
    · cases hnamed
  · cases hnamed
  · cases hnamed

theorem Grammar.exists_letter {grammar : Grammar} {switch : Switch} {letters : List Char}
    (hflag : .flag switch ∈ (grammar.letteredItems letters).1) : switch.letter? ≠ none := by
  induction letters with
  | nil => exact absurd hflag List.not_mem_nil
  | cons letter rest ih =>
      rw [letteredItems] at hflag
      split at hflag
      · simp at hflag
      · rename_i found hfound
        split at hflag
        · split at hflag <;> simp at hflag
        · rcases List.mem_cons.mp hflag with hfirst | hrest
          · cases hfirst
            rw [lettered?] at hfound
            have hletter : switch.letter? = some letter := by simpa using List.find?_some hfound
            rw [hletter]
            exact Option.some_ne_none letter
          · exact ih hrest

/-- There is one way to write the switch. -/
theorem Grammar.eq_of_flag_trace {grammar : Grammar} {text : String}
    (hflag : .flag .trace ∈ (grammar.argumentItems (Argument.ofText text)).1) :
    text = "--trace" := by
  cases hargument : Argument.ofText text with
  | terminator =>
      rw [hargument] at hflag
      exact absurd hflag List.not_mem_nil
  | named name value? =>
      rw [hargument, argumentItems, namedItems] at hflag
      split at hflag
      · simp at hflag
      · rename_i switch hfound
        rw [named?] at hfound
        have hname : switch.name = name := by simpa using List.find?_some hfound
        split at hflag
        · simp at hflag
        · simp at hflag
        · simp at hflag
        · obtain rfl : Switch.trace = switch := by simpa using hflag
          rw [eq_of_named hargument, ← hname]
          rfl
  | lettered letters =>
      rw [hargument] at hflag
      exact absurd rfl (exists_letter hflag)
  | plain value =>
      rw [hargument] at hflag
      simp [argumentItems] at hflag

theorem Grammar.exists_trace {grammar : Grammar} {waiting? : Option Switch}
    {arguments : List String} (hflag : .flag .trace ∈ grammar.itemsAfter waiting? arguments) :
    ∃ before after, arguments = before ++ "--trace" :: after ∧ "--" ∉ before := by
  fun_induction itemsAfter grammar waiting? arguments with
  | case1 => exact absurd hflag List.not_mem_nil
  | case2 => simp at hflag
  | case3 waiting text rest value hvalue ih =>
      rcases List.mem_cons.mp hflag with hfirst | hrest
      · cases hfirst
      · obtain ⟨before, after, rfl, hend⟩ := ih hrest
        refine ⟨text :: before, after, rfl, List.not_mem_cons_of_ne_of_not_mem ?_ hend⟩
        rintro rfl
        cases hvalue
  | case4 => simp at hflag
  | case5 => simp at hflag
  | case6 text rest items next hargument hitems ih =>
      rcases List.mem_append.mp hflag with hfirst | hrest
      · have hmem : .flag .trace ∈ (grammar.argumentItems (Argument.ofText text)).1 := by
          rw [hitems]
          exact hfirst
        exact ⟨[], rest, by rw [eq_of_flag_trace hmem]; rfl, List.not_mem_nil⟩
      · obtain ⟨before, after, rfl, hend⟩ := ih hrest
        refine ⟨text :: before, after, rfl, List.not_mem_cons_of_ne_of_not_mem ?_ hend⟩
        rintro rfl
        exact hargument (by decide)

/-- A run that is traced has the switch among its arguments. -/
theorem Command.exists_trace {arguments : List String} {program : String} {options : RunOptions}
    (harguments : ofArguments arguments = .ok (.run program options true)) :
    ∃ before after, arguments = before ++ "--trace" :: after ∧ "--" ∉ before := by
  obtain ⟨verbose, hinvocation⟩ := ofArguments_eq_ok_iff.mp harguments
  obtain ⟨front, name, rest, _, commandName, settings, rfl, hfront, hplain, _, _, hsettings,
    hcommand, _⟩ := Invocation.exists_settings hinvocation
  obtain ⟨rfl, _, _, htraced⟩ := Settings.command_eq_run_iff.mp hcommand
  obtain ⟨before, after, rfl, hend⟩ :=
    Grammar.exists_trace (Settings.flag_trace_mem hsettings htraced)
  refine ⟨front ++ name :: before, after, by rw [List.append_assoc, List.cons_append], ?_⟩
  intro hmem
  rcases List.mem_append.mp hmem with houter | hrest
  · exact (hfront _ houter).1 (by decide)
  · rcases List.mem_cons.mp hrest with rfl | hbefore
    · cases hplain
    · exact hend hbefore

end EightBit.CommandLine
