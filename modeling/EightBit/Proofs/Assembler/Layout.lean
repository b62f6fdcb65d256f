import EightBit.Proofs.Assembler.Program
import Mathlib.Data.List.Infix

/-!
# Ways to lay out a line

Separators may stand before and behind the tokens of a line, must stand between them, and a comment
may end the line. `Token.LaidOut` gives all lines that are made of some tokens in this way, and they
are exactly the lines that are read as those tokens. So what the assembler makes of a line depends
on its tokens only.
-/

namespace EightBit

namespace Token

/-- A token that is not cut where it stands: nothing in it separates or begins a comment. -/
structure Unbroken (token : Token) : Prop where
  ne_empty : token ≠ ""
  no_separator : ∀ c ∈ token.toList, isSeparator c = false
  no_semicolon : ';' ∉ token.toList
  no_slashes : ¬['/', '/'] <:+: token.toList

-- `any` goes through the token, where a quantifier may go through all characters that there are.
instance (token : Token) : Decidable (Unbroken token) :=
  decidable_of_iff (token ≠ "" ∧ token.toList.any isSeparator = false ∧ ';' ∉ token.toList ∧
    ¬['/', '/'] <:+: token.toList) <| by
    simp only [List.any_eq_false, Bool.not_eq_true]
    exact ⟨fun ⟨hne, hplain, hsemicolon, hslashes⟩ => ⟨hne, hplain, hsemicolon, hslashes⟩,
      fun htoken => ⟨htoken.1, htoken.2, htoken.3, htoken.4⟩⟩

/-- The characters are separators, if there are any. -/
def Gap (chars : List Char) : Prop :=
  ∀ c ∈ chars, isSeparator c = true

instance (chars : List Char) : Decidable (Gap chars) :=
  List.decidableBAll _ chars

/-- Tokens with separators between them, from the first token to the end of the line. Two slashes
directly behind a slash would begin the comment at that slash. -/
inductive Row : List Token → List Char → Prop
  | last {token : Token} {gap comment : List Char} (hgap : Gap gap)
      (hcomment : comment = [] ∨ CommentAt comment)
      (hslash : gap = [] → token.toList.getLast? = some '/' → ¬['/', '/'] <+: comment) :
      Row [token] (token.toList ++ (gap ++ comment))
  | more {token : Token} {tokens : List Token} {gap rest : List Char} (hne : gap ≠ [])
      (hgap : Gap gap) (hrest : Row tokens rest) :
      Row (token :: tokens) (token.toList ++ (gap ++ rest))

theorem Row.singleton (token : Token) : Row [token] token.toList := by
  have hrow := @Row.last token [] [] (List.forall_mem_nil _) (Or.inl rfl) fun _ _ => by decide
  rwa [List.append_nil, List.append_nil] at hrow

/-- The line is a row of the tokens, with separators in front of it or not. -/
def LaidOut (tokens : List Token) (line : String) : Prop :=
  ∃ front row, Gap front ∧ Row tokens row ∧ line.toList = front ++ row

/-! ## Reading what is laid out -/

theorem code_gap_append {gap : List Char} (hgap : Gap gap) (rest : List Char) :
    code (gap ++ rest) = gap ++ code rest := by
  induction gap with
  | nil => rfl
  | cons c gap ih =>
      obtain ⟨hc, hgap⟩ := List.forall_mem_cons.mp hgap
      rw [List.cons_append, code_cons_of_not_commentAt (not_commentAt_of_isSeparator hc _), ih hgap,
        List.cons_append]

/-- Nothing is cut out of a token, provided that its last character and the next one are not the two
slashes of a comment. -/
theorem code_append {chars rest : List Char} (hsemicolon : ';' ∉ chars)
    (hslashes : ¬['/', '/'] <:+: chars)
    (hseam : chars.getLast? = some '/' → rest.head? ≠ some '/') :
    code (chars ++ rest) = chars ++ code rest := by
  induction chars with
  | nil => rfl
  | cons c chars ih =>
      have hplain : ¬CommentAt (c :: (chars ++ rest)) := by
        rintro (⟨tail, hcomment⟩ | ⟨tail, hcomment⟩)
        · obtain ⟨rfl, _⟩ := List.cons.inj hcomment
          exact hsemicolon List.mem_cons_self
        · obtain ⟨rfl, hnext⟩ := List.cons.inj hcomment
          cases chars with
          | nil =>
              rw [List.nil_append] at hnext
              exact hseam rfl (by rw [← hnext]; rfl)
          | cons d chars =>
              obtain ⟨rfl, _⟩ := List.cons.inj hnext
              exact hslashes ⟨[], chars, rfl⟩
      rw [List.cons_append, code_cons_of_not_commentAt hplain, List.cons_append]
      refine congrArg (c :: ·) (ih ?_ ?_ ?_)
      · exact fun hmem => hsemicolon (List.mem_cons_of_mem c hmem)
      · exact fun hinfix => hslashes (List.infix_cons hinfix)
      · intro hlast
        apply hseam
        rw [List.getLast?_cons, hlast]
        rfl

theorem runs_gap_append {gap rest : List Char} {tokens : List Token} (hgap : Gap gap)
    (hrest : Runs rest tokens) : Runs (gap ++ rest) tokens := by
  induction gap with
  | nil => exact hrest
  | cons c gap ih =>
      obtain ⟨hc, hgap⟩ := List.forall_mem_cons.mp hgap
      exact .separator hc (ih hgap)

/-- A gap begins with a separator, and that is no slash. -/
theorem isSeparator_of_head? {gap rest : List Char} (hne : gap ≠ []) (hgap : Gap gap) :
    ∀ c ∈ (gap ++ rest).head?, isSeparator c = true := by
  cases gap with
  | nil => exact absurd rfl hne
  | cons d gap =>
      intro c hc
      obtain rfl := Option.some.inj hc
      exact hgap d List.mem_cons_self

theorem head?_ne_slash {chars : List Char} (hchars : ∀ c ∈ chars.head?, isSeparator c = true) :
    chars.head? ≠ some '/' := by
  intro hslash
  exact absurd (hchars '/' hslash) (by decide)

section Rows

variable {token : Token} {tokens : List Token} {gap rest comment row : List Char}

theorem Unbroken.code_append (htoken : Unbroken token)
    (hseam : token.toList.getLast? = some '/' → rest.head? ≠ some '/') :
    code (token.toList ++ rest) = token.toList ++ code rest :=
  Token.code_append htoken.no_semicolon htoken.no_slashes hseam

theorem Unbroken.runs_append (htoken : Unbroken token)
    (hlongest : ∀ c ∈ rest.head?, isSeparator c = true) (hrest : Runs rest tokens) :
    Runs (token.toList ++ rest) (token :: tokens) := by
  have hne : token.toList ≠ [] := fun hnil => htoken.ne_empty (String.toList_eq_nil_iff.mp hnil)
  have hruns := Runs.run hne htoken.no_separator hlongest hrest
  rwa [String.ofList_toList] at hruns

/-- A comment is cut off with nothing of the token or the separators in front of it. -/
theorem code_last (htoken : Unbroken token) (hgap : Gap gap)
    (hcomment : comment = [] ∨ CommentAt comment)
    (hslash : gap = [] → token.toList.getLast? = some '/' → ¬['/', '/'] <+: comment) :
    code (token.toList ++ (gap ++ comment)) = token.toList ++ gap := by
  have hcut : code comment = [] := by
    rcases hcomment with rfl | hcomment
    · rfl
    · exact code_eq_nil_of_commentAt hcomment
  rw [htoken.code_append, code_gap_append hgap, hcut, List.append_nil]
  intro hlast
  by_cases hne : gap = []
  · subst hne
    rcases hcomment with rfl | ⟨tail, rfl⟩ | hslashes
    · exact nofun
    · exact nofun
    · exact absurd hslashes (hslash rfl hlast)
  · exact head?_ne_slash (isSeparator_of_head? hne hgap)

/-- The tokens of a row are the runs of what stands before its comment. -/
theorem Row.runs_code (hrow : Row tokens row) (htokens : ∀ token ∈ tokens, Unbroken token) :
    Runs (code row) tokens := by
  induction hrow with
  | @last token gap comment hgap hcomment hslash =>
      have htoken := htokens token List.mem_cons_self
      rw [code_last htoken hgap hcomment hslash]
      have hruns : Runs gap [] := by simpa using runs_gap_append hgap .nil
      exact htoken.runs_append (fun c hc => hgap c (List.mem_of_mem_head? hc)) hruns
  | @more token tokens gap rest hne hgap _ ih =>
      obtain ⟨htoken, htokens⟩ := List.forall_mem_cons.mp htokens
      rw [htoken.code_append fun _ => head?_ne_slash (isSeparator_of_head? hne hgap),
        code_gap_append hgap]
      exact htoken.runs_append (isSeparator_of_head? hne hgap) (runs_gap_append hgap (ih htokens))

/-- A line that tokens are laid out on is read as those tokens. -/
theorem LaidOut.reads {line : String} (hline : LaidOut tokens line)
    (htokens : ∀ token ∈ tokens, Unbroken token) : Reads line tokens := by
  obtain ⟨front, row, hfront, hrow, hchars⟩ := hline
  have hruns := runs_gap_append hfront (hrow.runs_code htokens)
  rw [← code_gap_append hfront, ← hchars] at hruns
  exact ⟨_, upToComment_code line.toList, hruns⟩

end Rows

/-! ## Laying out what is read -/

theorem Runs.infix {chars : List Char} {tokens : List Token} (hruns : Runs chars tokens) :
    ∀ token ∈ tokens, token ≠ "" ∧ token.toList <:+: chars ∧
      ∀ c ∈ token.toList, isSeparator c = false := by
  induction hruns with
  | nil => exact List.forall_mem_nil _
  | separator _ _ ih =>
      intro token htoken
      obtain ⟨hne, hinfix, hplain⟩ := ih token htoken
      exact ⟨hne, List.infix_cons hinfix, hplain⟩
  | @run chars rest _ hne hchars _ _ ih =>
      rw [List.forall_mem_cons, String.toList_ofList]
      refine ⟨⟨?_, (List.prefix_append chars rest).isInfix, hchars⟩, ?_⟩
      · exact fun hempty => hne (String.ofList_eq_empty_iff.mp hempty)
      · intro token htoken
        obtain ⟨htokenNe, hinfix, hplain⟩ := ih token htoken
        exact ⟨htokenNe, hinfix.trans (List.suffix_append chars rest).isInfix, hplain⟩

section Reading

variable {part rest : List Char} {tokens : List Token}

/-- What begins a comment is nowhere in front of the earliest comment. -/
theorem not_infix_of_first {mark : List Char} (hne : mark ≠ [])
    (hmark : ∀ tail, CommentAt (mark ++ tail))
    (hfirst : ∀ before after, part = before ++ after → after ≠ [] → ¬CommentAt (after ++ rest)) :
    ¬mark <:+: part := by
  rintro ⟨before, after, rfl⟩
  apply hfirst before (mark ++ after) (List.append_assoc _ _ _)
  · exact fun hnil => hne (List.append_eq_nil_iff.mp hnil).1
  · rw [List.append_assoc]
    exact hmark (after ++ rest)

theorem Runs.unbroken (hruns : Runs part tokens)
    (hfirst : ∀ before after, part = before ++ after → after ≠ [] → ¬CommentAt (after ++ rest)) :
    ∀ token ∈ tokens, Unbroken token := by
  intro token htoken
  obtain ⟨hne, hinfix, hplain⟩ := hruns.infix token htoken
  refine ⟨hne, hplain, ?_, ?_⟩
  · intro hmem
    have hmark : [';'] <:+: token.toList := (List.singleton_infix_iff _ _).mpr hmem
    exact not_infix_of_first (List.cons_ne_nil _ _) (fun tail => Or.inl ⟨tail, rfl⟩) hfirst
      (hmark.trans hinfix)
  · intro hslashes
    exact not_infix_of_first (List.cons_ne_nil _ _) (fun tail => Or.inr ⟨tail, rfl⟩) hfirst
      (hslashes.trans hinfix)

theorem Runs.gap {chars : List Char} (hruns : Runs chars []) : Gap chars := by
  generalize htokens : ([] : List Token) = tokens at hruns
  induction hruns with
  | nil => exact List.forall_mem_nil _
  | separator hc _ ih => exact List.forall_mem_cons.mpr ⟨hc, ih htokens⟩
  | run => cases htokens

/-- The runs in front of a comment are a row with it. When the first character is a separator the
row is not at the front. -/
theorem Runs.exists_row (hruns : Runs part tokens) (hne : tokens ≠ [])
    (hrest : rest = [] ∨ CommentAt rest)
    (hfirst : ∀ before after, part = before ++ after → after ≠ [] → ¬CommentAt (after ++ rest)) :
    ∃ front row, Gap front ∧ Row tokens row ∧ part ++ rest = front ++ row ∧
      ((∀ c ∈ part.head?, isSeparator c = true) → front ≠ []) := by
  induction hruns with
  | nil => exact absurd rfl hne
  | @separator c part tokens hc _ ih =>
      obtain ⟨front, row, hfront, hrow, hsplit, _⟩ := ih hne fun before after hpart =>
        hfirst (c :: before) after (by rw [hpart, List.cons_append])
      refine ⟨c :: front, row, List.forall_mem_cons.mpr ⟨hc, hfront⟩, hrow, ?_, ?_⟩
      · rw [List.cons_append, hsplit, List.cons_append]
      · exact fun _ => List.cons_ne_nil c front
  | @run chars more tokens hchars hplain hlongest hruns ih =>
      have hbehind : (∀ c ∈ (chars ++ more).head?, isSeparator c = true) →
          ([] : List Char) ≠ [] := by
        intro hseparator
        obtain ⟨c, tail, rfl⟩ := List.exists_cons_of_ne_nil hchars
        have hc := hplain c List.mem_cons_self
        rw [hseparator c rfl] at hc
        cases hc
      cases tokens with
      | nil =>
          have hslash : more = [] → (String.ofList chars).toList.getLast? = some '/' →
              ¬['/', '/'] <+: rest := by
            rintro rfl hlast ⟨tail, hslashes⟩
            rw [String.toList_ofList] at hlast
            have hsplit := List.dropLast_append_getLast? '/' hlast
            refine hfirst chars.dropLast ['/'] ?_ (List.cons_ne_nil _ _) (Or.inr ?_)
            · rw [hsplit, List.append_nil]
            · exact ⟨'/' :: tail, by rw [← hslashes]; rfl⟩
          have hrow := Row.last hruns.gap hrest hslash
          rw [String.toList_ofList, ← List.append_assoc] at hrow
          exact ⟨[], _, List.forall_mem_nil _, hrow, rfl, hbehind⟩
      | cons token tokens =>
          obtain ⟨gap, row, hgap, hrow, hsplit, hseparated⟩ := ih (List.cons_ne_nil _ _)
            fun before after hpart => hfirst (chars ++ before) after (by
              rw [hpart, List.append_assoc])
          have hlonger : Row (String.ofList chars :: token :: tokens)
              ((String.ofList chars).toList ++ (gap ++ row)) :=
            .more (hseparated hlongest) hgap hrow
          rw [String.toList_ofList, ← hsplit, ← List.append_assoc] at hlonger
          exact ⟨[], _, List.forall_mem_nil _, hlonger, rfl, hbehind⟩

end Reading

/-- The lines that are read as some tokens are those that the tokens can be laid out on. -/
theorem reads_iff_laidOut {line : String} {tokens : List Token} (hne : tokens ≠ []) :
    Reads line tokens ↔ (∀ token ∈ tokens, Unbroken token) ∧ LaidOut tokens line := by
  constructor
  · rintro ⟨part, ⟨rest, hline, hrest, hfirst⟩, hruns⟩
    obtain ⟨front, row, hfront, hrow, hsplit, _⟩ := hruns.exists_row hne hrest hfirst
    exact ⟨hruns.unbroken hfirst, front, row, hfront, hrow, hline.trans hsplit⟩
  · rintro ⟨htokens, hline⟩
    exact hline.reads htokens

end Token

/-- All ways to lay out the same tokens on a line come to the same word and warnings, or to the same
error. These are all lines with the tokens, and the blanks at the ends of a line never matter. -/
theorem encodeLine_of_layout :
    (∀ tokens left right, tokens ≠ [] → (∀ token ∈ tokens, Token.Unbroken token) →
        Token.LaidOut tokens left → Token.LaidOut tokens right →
        encodeLine left = encodeLine right) ∧
      (∀ line tokens, tokens ≠ [] → (Token.Reads line tokens ↔
        (∀ token ∈ tokens, Token.Unbroken token) ∧ Token.LaidOut tokens line)) ∧
      ∀ line : String, encodeLine (String.ofList (Text.trim line.toList)) = encodeLine line := by
  refine ⟨?_, fun line tokens hne => Token.reads_iff_laidOut hne, Assembly.encodeLine_source⟩
  intro tokens left right hne htokens hleft hright
  have hleft : Token.ofLine left = tokens := Token.reads_iff.mp (hleft.reads htokens)
  have hright : Token.ofLine right = tokens := Token.reads_iff.mp (hright.reads htokens)
  exact encodeLine_congr (hleft.trans hright.symm)

/-- A semicolon may follow a slash directly, and two slashes behind a blank. -/
theorem encodeLine_of_layout_slash :
    (∀ token ∈ ["JMP", "3/"], Token.Unbroken token) ∧
      Token.LaidOut ["JMP", "3/"] ",JMP, \t3/;4" ∧ Token.LaidOut ["JMP", "3/"] "JMP 3/ //4;" ∧
      encodeLine ",JMP, \t3/;4" = encodeLine "JMP 3/ //4;" := by
  have htokens : ∀ token ∈ ["JMP", "3/"], Token.Unbroken token := by decide
  have hbefore : Token.Row ["JMP", "3/"]
      ("JMP".toList ++ ([',', ' ', '\t'] ++ ("3/".toList ++ ([] ++ [';', '4'])))) :=
    .more (by decide) (by decide) (.last (by decide) (Or.inr (by decide)) (by decide))
  have hbehind : Token.Row ["JMP", "3/"]
      ("JMP".toList ++ ([' '] ++ ("3/".toList ++ ([' '] ++ ['/', '/', '4', ';'])))) :=
    .more (by decide) (by decide) (.last (by decide) (Or.inr (by decide)) (by decide))
  have hleft : Token.LaidOut ["JMP", "3/"] ",JMP, \t3/;4" := ⟨[','], _, by decide, hbefore, rfl⟩
  have hright : Token.LaidOut ["JMP", "3/"] "JMP 3/ //4;" := ⟨[], _, by decide, hbehind, rfl⟩
  exact ⟨htokens, hleft, hright,
    encodeLine_of_layout.1 _ _ _ (List.cons_ne_nil _ _) htokens hleft hright⟩

end EightBit
