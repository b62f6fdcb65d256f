import EightBit.Proofs.Text.Uppercase
import Mathlib.Data.List.Forall2
import Mathlib.Data.List.Infix

/-!
# Changes of case

A change of the case of some letters of ASCII, as the pairs of what stands at each place of a text
before and after it. Texts are alike when there is such a change between them, and what does not
tell an upper-case letter of ASCII from the lower-case one is the same of both.
-/

namespace EightBit.Text

/-- The function does not tell an upper-case letter of ASCII from the lower-case one. -/
def IgnoresCase {α : Type} (f : Char → α) : Prop :=
  ∀ c, f c.toLower = f c

section

variable {α : Type} {f : Char → α}

theorem ignoresCase_of_ascii (hascii : ∀ c : Char, c.toNat < 128 → f c.toLower = f c) :
    IgnoresCase f := by
  intro c
  rcases Nat.lt_or_ge c.toNat 128 with hc | hc
  · exact hascii c hc
  · rw [toLower_of_le hc]

theorem IgnoresCase.eq_of_same_letter (hf : IgnoresCase f) {c d : Char}
    (hsame : c.toLower = d.toLower) : f c = f d := by
  rw [← hf c, hsame, hf d]

/-- The 128 characters of ASCII can be tried out. -/
theorem ignoresCase_of_codes
    (hcodes : ∀ code < 128, f (Char.ofNat code).toLower = f (Char.ofNat code)) :
    IgnoresCase f :=
  ignoresCase_of_ascii fun _ hc => forall_ascii (P := fun c => f c.toLower = f c) hcodes hc

end

theorem ignoresCase_toLower : IgnoresCase Char.toLower :=
  ignoresCase_of_codes (by decide +kernel)

theorem ignoresCase_upperChar : IgnoresCase upperChar := by
  apply ignoresCase_of_ascii
  intro c hc
  rw [upperChar_of_lt hc, upperChar_of_lt (toLower_lt_iff.mpr hc), toUpper_toLower hc]

/-- A character that is no letter of ASCII has no other case. -/
theorem ignoresCase_beq {mark : Char} (hmark : mark.isAlpha = false) :
    IgnoresCase (· == mark) := by
  apply ignoresCase_of_ascii
  intro c hc
  have hletter : c.toLower = c ∨ c.isAlpha = true ∧ c.toLower.isAlpha = true :=
    forall_ascii (P := fun c => c.toLower = c ∨ c.isAlpha = true ∧ c.toLower.isAlpha = true)
      (by decide +kernel) hc
  rcases hletter with hsame | ⟨hupper, hlower⟩
  · rw [hsame]
  · have hne {letter : Char} (hletter : letter.isAlpha = true) : (letter == mark) = false := by
      apply beq_false_of_ne
      rintro rfl
      simp [hmark] at hletter
    rw [hne hupper, hne hlower]

theorem eq_of_toLower_eq {mark c : Char} (hmark : mark.isAlpha = false)
    (hc : c.toLower = mark) : c = mark := by
  simpa [hc] using (ignoresCase_beq hmark c).symm

/-- The case of the letters of a text makes no difference to its upper-case form. -/
theorem upper_eq_of_alike {left right : String} (halike : alike left right = true) :
    upper left = upper right := by
  have hfold (s : String) : upper s = String.ofList ((foldCase s.toList).flatMap upperChar) := by
    rw [upper, foldCase, List.flatMap_map]
    exact congrArg String.ofList (List.flatMap_congr fun c _ => (ignoresCase_upperChar c).symm)
  rw [hfold, alike_iff.mp halike, ← hfold]

/-- The characters of a text, each with what it is changed to. Only letters of ASCII change, and
only their case. -/
structure Recasing where
  pairs : List (Char × Char)
  same_letter : ∀ pair ∈ pairs, pair.1.toLower = pair.2.toLower

namespace Recasing

variable (change : Recasing)

def before : String :=
  String.ofList (change.pairs.map Prod.fst)

def after : String :=
  String.ofList (change.pairs.map Prod.snd)

/-- The change turns a part of the text into another one. -/
def Turns (text other : String) : Prop :=
  ∃ part, part <:+: change.pairs ∧ String.ofList (part.map Prod.fst) = text ∧
    String.ofList (part.map Prod.snd) = other

variable {change} {part : List (Char × Char)}

theorem map_eq (hpart : part <:+: change.pairs) {α : Type} {f : Char → α} (hf : IgnoresCase f) :
    (part.map Prod.fst).map f = (part.map Prod.snd).map f := by
  rw [List.map_map, List.map_map]
  apply List.map_congr_left
  intro pair hpair
  exact hf.eq_of_same_letter (change.same_letter pair (hpart.subset hpair))

theorem Turns.alike {text other : String} (hturns : change.Turns text other) :
    alike text other = true := by
  obtain ⟨part, hpart, rfl, rfl⟩ := hturns
  rw [alike_iff, String.toList_ofList, String.toList_ofList]
  exact map_eq hpart ignoresCase_toLower

end Recasing

/-- Texts are alike when a change of case leads from the one to the other. -/
theorem alike_iff_exists_recasing {left right : String} :
    alike left right = true ↔
      ∃ change : Recasing, change.before = left ∧ change.after = right := by
  constructor
  · intro halike
    have hsame : List.Forall₂ (· = ·) (foldCase left.toList) (foldCase right.toList) := by
      rw [List.forall₂_eq_eq_eq]
      exact alike_iff.mp halike
    rw [foldCase, foldCase, List.forall₂_map_left_iff, List.forall₂_map_right_iff] at hsame
    obtain ⟨hlength, hpairs⟩ := List.forall₂_iff_zip.mp hsame
    refine ⟨⟨left.toList.zip right.toList, fun pair hpair => hpairs hpair⟩, ?_, ?_⟩
    · simp [Recasing.before, List.map_fst_zip, hlength]
    · simp [Recasing.after, List.map_snd_zip, hlength]
  · rintro ⟨change, rfl, rfl⟩
    have hwhole : change.Turns change.before change.after := ⟨_, List.infix_rfl, rfl, rfl⟩
    exact hwhole.alike

end EightBit.Text
