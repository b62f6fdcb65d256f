import EightBit.Assembler.Token
import Mathlib.Data.List.Induction
import Mathlib.Data.List.TakeWhile
import Mathlib.Data.Nat.Init

/-!
# How a line is read as tokens

A line is cut at its earliest comment, and the tokens are the longest runs without separators of
what is left. `Token.Reads` says so without saying how the runs are found, and `Token.reads_iff`
shows that `Token.ofLine` finds them. Blanks at the two ends of a line change nothing.
-/

namespace EightBit.Token

/-! ## Comments -/

/-- A comment begins with the first of these characters. -/
def CommentAt (chars : List Char) : Prop :=
  [';'] <+: chars ∨ ['/', '/'] <+: chars

instance (chars : List Char) : Decidable (CommentAt chars) :=
  inferInstanceAs (Decidable (_ ∨ _))

/-- `part` is the beginning of a line up to its earliest comment, the whole line if it has none. -/
def UpToComment (line part : List Char) : Prop :=
  ∃ rest, line = part ++ rest ∧ (rest = [] ∨ CommentAt rest) ∧
    ∀ before after, part = before ++ after → after ≠ [] → ¬CommentAt (after ++ rest)

theorem code_eq_nil_of_commentAt {chars : List Char} (hcomment : CommentAt chars) :
    code chars = [] := by
  rcases hcomment with ⟨rest, rfl⟩ | ⟨rest, rfl⟩
  · rfl
  · rfl

theorem code_cons_of_not_commentAt {c : Char} {rest : List Char}
    (hcomment : ¬CommentAt (c :: rest)) : code (c :: rest) = c :: code rest := by
  rw [code.eq_4]
  · rintro rfl
    exact hcomment (Or.inl ⟨rest, rfl⟩)
  · rintro tail rfl rfl
    exact hcomment (Or.inr ⟨tail, rfl⟩)

theorem upToComment_code (line : List Char) : UpToComment line (code line) := by
  induction line with
  | nil => exact ⟨[], rfl, Or.inl rfl, by simp [code]⟩
  | cons c rest ih =>
      by_cases hcomment : CommentAt (c :: rest)
      · rw [code_eq_nil_of_commentAt hcomment]
        exact ⟨c :: rest, rfl, Or.inr hcomment, by simp⟩
      · rw [code_cons_of_not_commentAt hcomment]
        obtain ⟨tail, hrest, htail, hfirst⟩ := ih
        refine ⟨tail, by rw [List.cons_append, ← hrest], htail, ?_⟩
        intro before after hsplit hafter
        cases before with
        | nil =>
            rw [List.nil_append] at hsplit
            rw [← hsplit, List.cons_append, ← hrest]
            exact hcomment
        | cons b before =>
            exact hfirst before after (List.cons.inj hsplit).2 hafter

theorem eq_code_of_upToComment {line part : List Char} (hpart : UpToComment line part) :
    part = code line := by
  obtain ⟨rest, rfl, hrest, hfirst⟩ := hpart
  induction part with
  | nil =>
      rcases hrest with rfl | hcomment
      · rfl
      · exact (code_eq_nil_of_commentAt hcomment).symm
  | cons c part ih =>
      have hhead : ¬CommentAt (c :: (part ++ rest)) :=
        hfirst [] (c :: part) rfl (List.cons_ne_nil c part)
      rw [List.cons_append, code_cons_of_not_commentAt hhead]
      refine congrArg (c :: ·) (ih ?_)
      intro before after hsplit hafter
      exact hfirst (c :: before) after (by rw [hsplit, List.cons_append]) hafter

/-! ## Cuts -/

/-- The part of a line before the first place where `mark` stands. -/
def cutAt (mark : List Char) : List Char → List Char
  | [] => []
  | c :: rest => if mark <+: c :: rest then [] else c :: cutAt mark rest

theorem cutAt_isPrefix (mark line : List Char) : cutAt mark line <+: line := by
  induction line with
  | nil => exact List.prefix_rfl
  | cons c rest ih =>
      rw [cutAt]
      split
      · exact List.nil_prefix
      · exact List.cons_prefix_cons.mpr ⟨rfl, ih⟩

/-- The earliest comment is found by two cuts, the first of them at `;`. -/
theorem code_eq_cutAt (line : List Char) :
    code line = cutAt ['/', '/'] (cutAt [';'] line) := by
  induction line with
  | nil => rfl
  | cons c rest ih =>
      by_cases hcomment : CommentAt (c :: rest)
      · rw [code_eq_nil_of_commentAt hcomment]
        rcases hcomment with hmark | ⟨tail, htail⟩
        · rw [cutAt, if_pos hmark]
          rfl
        · rw [← htail]
          rfl
      · have hmark : ¬[';'] <+: c :: rest := fun hmark => hcomment (Or.inl hmark)
        have hslashes : ¬['/', '/'] <+: c :: cutAt [';'] rest := by
          intro hslashes
          have hcut : c :: cutAt [';'] rest <+: c :: rest :=
            List.cons_prefix_cons.mpr ⟨rfl, cutAt_isPrefix [';'] rest⟩
          exact hcomment (Or.inr (hslashes.trans hcut))
        rw [code_cons_of_not_commentAt hcomment, ih]
        conv_rhs => rw [cutAt, if_neg hmark, cutAt, if_neg hslashes]

/-! ## Runs -/

/-- The tokens are the longest runs of characters that are no separators, in their order. -/
inductive Runs : List Char → List Token → Prop
  | nil : Runs [] []
  | separator {c : Char} {rest : List Char} {tokens : List Token} (hc : isSeparator c = true)
      (hrest : Runs rest tokens) : Runs (c :: rest) tokens
  | run {chars rest : List Char} {tokens : List Token} (hne : chars ≠ [])
      (hchars : ∀ c ∈ chars, isSeparator c = false)
      (hlongest : ∀ c ∈ rest.head?, isSeparator c = true) (hrest : Runs rest tokens) :
      Runs (chars ++ rest) (String.ofList chars :: tokens)

/-- The tokens of a line without a comment. -/
def words (chars : List Char) : List Token :=
  ((chars.splitOnP isSeparator).filter (· ≠ [])).map String.ofList

theorem ofLine_eq_words (line : String) : ofLine line = words (code line.toList) := rfl

@[simp] theorem words_nil : words [] = [] := by
  simp [words]

theorem words_append_separator (before after : List Char) {c : Char}
    (hc : isSeparator c = true) : words (before ++ c :: after) = words before ++ words after := by
  simp only [words, List.splitOnP_append_cons before after hc, List.filter_append,
    List.map_append]

theorem words_separator {c : Char} (hc : isSeparator c = true) (rest : List Char) :
    words (c :: rest) = words rest := by
  simpa using words_append_separator [] rest hc

theorem words_of_forall_not_separator {chars : List Char} (hne : chars ≠ [])
    (hchars : ∀ c ∈ chars, isSeparator c = false) : words chars = [String.ofList chars] := by
  simp [words, List.splitOnP_eq_singleton hchars, hne]

theorem words_eq_of_runs {chars : List Char} {tokens : List Token} (hruns : Runs chars tokens) :
    words chars = tokens := by
  induction hruns with
  | nil => exact words_nil
  | separator hc _ ih => rw [words_separator hc, ih]
  | @run chars rest tokens hne hchars hlongest _ ih =>
      have hword := words_of_forall_not_separator hne hchars
      cases rest with
      | nil => rw [List.append_nil, hword, ← ih, words_nil]
      | cons c rest =>
          have hc : isSeparator c = true := hlongest c rfl
          rw [words_append_separator chars rest hc, hword, ← ih, words_separator hc]
          rfl

theorem exists_runs (chars : List Char) : ∃ tokens, Runs chars tokens := by
  induction hlength : chars.length using Nat.strong_induction_on generalizing chars with
  | h n ih =>
      cases chars with
      | nil => exact ⟨[], .nil⟩
      | cons c rest =>
          by_cases hc : isSeparator c = true
          · obtain ⟨tokens, htokens⟩ := ih rest.length (by simp [← hlength]) rest rfl
            exact ⟨tokens, .separator hc htokens⟩
          · let free : Char → Bool := fun d => !isSeparator d
            have hfree : free c = true := by simp [free, hc]
            have hsplit : (c :: rest).takeWhile free ++ (c :: rest).dropWhile free = c :: rest :=
              List.takeWhile_append_dropWhile
            have hne : (c :: rest).takeWhile free ≠ [] := by simp [hfree]
            have hshort : ((c :: rest).dropWhile free).length < n := by
              have hlengths := congrArg List.length hsplit
              have hpos := List.length_pos_iff.mpr hne
              rw [List.length_append, hlength] at hlengths
              omega
            obtain ⟨tokens, htokens⟩ := ih _ hshort _ rfl
            rw [← hsplit]
            refine ⟨_, .run hne ?_ ?_ htokens⟩
            · intro d hd
              simpa [free] using List.mem_takeWhile_imp hd
            · intro d hd
              have hstop := List.head?_dropWhile_not free (c :: rest)
              rw [Option.mem_def.mp hd] at hstop
              simpa [free] using hstop

theorem runs_iff {chars : List Char} {tokens : List Token} :
    Runs chars tokens ↔ words chars = tokens := by
  constructor
  · exact words_eq_of_runs
  · rintro rfl
    obtain ⟨tokens, htokens⟩ := exists_runs chars
    rwa [words_eq_of_runs htokens]

/-! ## Lines -/

/-- The tokens that a line is read as. -/
def Reads (line : String) (tokens : List Token) : Prop :=
  ∃ part, UpToComment line.toList part ∧ Runs part tokens

/-- Every line is read as exactly one list of tokens. -/
theorem reads_iff {line : String} {tokens : List Token} :
    Reads line tokens ↔ ofLine line = tokens := by
  rw [ofLine_eq_words]
  constructor
  · rintro ⟨part, hpart, hruns⟩
    rw [← eq_code_of_upToComment hpart]
    exact words_eq_of_runs hruns
  · intro htokens
    exact ⟨code line.toList, upToComment_code line.toList, runs_iff.mpr htokens⟩

/-! ## Blanks at the ends -/

theorem isSeparator_of_isBlank {c : Char} (hc : Text.isBlank c = true) :
    isSeparator c = true := by
  simp [isSeparator, hc]

theorem not_commentAt_of_isSeparator {c : Char} (hc : isSeparator c = true) (rest : List Char) :
    ¬CommentAt (c :: rest) := by
  rintro (hcomment | hcomment)
  · rw [← (List.cons_prefix_cons.mp hcomment).1] at hc
    exact absurd hc (by decide)
  · rw [← (List.cons_prefix_cons.mp hcomment).1] at hc
    exact absurd hc (by decide)

theorem not_commentAt_of_isBlank {c : Char} (hc : Text.isBlank c = true) (rest : List Char) :
    ¬CommentAt (c :: rest) :=
  not_commentAt_of_isSeparator (isSeparator_of_isBlank hc) rest

theorem words_code_cons_blank {c : Char} (hc : Text.isBlank c = true) (rest : List Char) :
    words (code (c :: rest)) = words (code rest) := by
  rw [code_cons_of_not_commentAt (not_commentAt_of_isBlank hc rest),
    words_separator (isSeparator_of_isBlank hc)]

theorem words_code_dropWhile_isBlank (chars : List Char) :
    words (code (chars.dropWhile Text.isBlank)) = words (code chars) := by
  induction chars with
  | nil => rfl
  | cons c rest ih =>
      by_cases hc : Text.isBlank c = true
      · rw [List.dropWhile_cons_of_pos hc, ih, words_code_cons_blank hc]
      · rw [List.dropWhile_cons_of_neg hc]

/-- A blank at the end of a line is in its comment or stands alone. -/
theorem code_append_blank {c : Char} (hc : Text.isBlank c = true) (chars : List Char) :
    code (chars ++ [c]) = code chars ∨ code (chars ++ [c]) = code chars ++ [c] := by
  induction chars with
  | nil => exact Or.inr (code_cons_of_not_commentAt (not_commentAt_of_isBlank hc []))
  | cons d rest ih =>
      by_cases hcomment : CommentAt (d :: rest)
      · have hlonger : CommentAt (d :: rest ++ [c]) :=
          hcomment.imp (·.trans (List.prefix_append _ _)) (·.trans (List.prefix_append _ _))
        left
        rw [code_eq_nil_of_commentAt hcomment, code_eq_nil_of_commentAt hlonger]
      · have hlonger : ¬CommentAt (d :: (rest ++ [c])) := by
          rintro (⟨tail, hsemicolon⟩ | ⟨tail, hslashes⟩)
          · exact hcomment (Or.inl ⟨rest, by rw [(List.cons.inj hsemicolon).1]; rfl⟩)
          · obtain ⟨hslash, hnext⟩ := List.cons.inj hslashes
            cases rest with
            | nil =>
                rw [← (List.cons.inj hnext).1] at hc
                exact absurd hc (by decide)
            | cons e rest =>
                obtain ⟨rfl, _⟩ := List.cons.inj hnext
                subst hslash
                exact hcomment (Or.inr ⟨rest, rfl⟩)
        rw [List.cons_append, code_cons_of_not_commentAt hcomment,
          code_cons_of_not_commentAt hlonger]
        rcases ih with ih | ih
        · exact Or.inl (congrArg (d :: ·) ih)
        · exact Or.inr (congrArg (d :: ·) ih)

theorem words_code_append_blank {c : Char} (hc : Text.isBlank c = true) (chars : List Char) :
    words (code (chars ++ [c])) = words (code chars) := by
  rcases code_append_blank hc chars with hsame | hlonger
  · rw [hsame]
  · rw [hlonger, words_append_separator _ [] (isSeparator_of_isBlank hc), words_nil,
      List.append_nil]

theorem words_code_trimEnd (chars : List Char) :
    words (code (chars.reverse.dropWhile Text.isBlank).reverse) = words (code chars) := by
  induction chars using List.reverseRecOn with
  | nil => rfl
  | append_singleton chars c ih =>
      rw [List.reverse_append, List.reverse_singleton, List.singleton_append]
      by_cases hc : Text.isBlank c = true
      · rw [List.dropWhile_cons_of_pos hc, ih, words_code_append_blank hc]
      · rw [List.dropWhile_cons_of_neg hc, List.reverse_cons, List.reverse_reverse]

/-- The tokens of a line are those of the line without the blanks at its ends. -/
theorem ofLine_trim (chars : List Char) :
    ofLine (String.ofList (Text.trim chars)) = ofLine (String.ofList chars) := by
  rw [ofLine_eq_words, ofLine_eq_words, String.toList_ofList, String.toList_ofList, Text.trim,
    words_code_trimEnd, words_code_dropWhile_isBlank]

end EightBit.Token
