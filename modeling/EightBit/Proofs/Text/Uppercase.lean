import EightBit.Text.AsciiCase
import EightBit.Text.Uppercase
import Mathlib.Tactic.ByContra

/-!
# Names in upper case

Upper-casing a token and comparing it with a name is the same as comparing the two up to ASCII case,
provided that the name has none of the letters that characters outside ASCII may become. Those are
`F`, `I` and `S`, from ligatures, the dotless `ı`, the long `ſ` and `ß`.
-/

namespace EightBit.Text

/-! ## Characters of ASCII -/

/-- What holds of the first 128 code points holds of the characters of ASCII. -/
theorem forall_ascii {P : Char → Prop} (hcodes : ∀ code < 128, P (Char.ofNat code)) {c : Char}
    (hc : c.toNat < 128) : P c := by
  have hcode := hcodes c.toNat hc
  rwa [Char.ofNat_toNat] at hcode

/-- The first run of the table is the only one within ASCII. -/
theorem caseRuns_tail : ∀ run ∈ caseRuns.tail, 128 ≤ run.first := by
  decide +kernel

theorem caseExpansions_le : ∀ entry ∈ caseExpansions, 128 ≤ entry.1 := by
  decide +kernel

theorem findSome?_image?_of_lt {code : Nat} (hcode : code < 128) :
    caseRuns.findSome? (·.image? code) = CaseRun.image? ⟨0x61, 0x7A, 1, 0x41⟩ code := by
  have hsplit : caseRuns = ⟨0x61, 0x7A, 1, 0x41⟩ :: caseRuns.tail := rfl
  have hrest : caseRuns.tail.findSome? (·.image? code) = none := by
    rw [List.findSome?_eq_none_iff]
    intro run hrun
    have hfirst := caseRuns_tail run hrun
    rw [CaseRun.image?, if_neg (by omega)]
  rw [hsplit, List.findSome?_cons]
  cases CaseRun.image? ⟨0x61, 0x7A, 1, 0x41⟩ code with
  | none => exact hrest
  | some image => rfl

theorem lookup_caseExpansions_of_lt {code : Nat} (hcode : code < 128) :
    caseExpansions.lookup code = none := by
  rw [List.lookup_eq_none_iff]
  intro entry hentry
  have hle := caseExpansions_le entry hentry
  exact bne_iff_ne.mpr (by omega)

theorem upperChar_of_lt {c : Char} (hc : c.toNat < 128) : upperChar c = [c.toUpper] := by
  have hlookup := lookup_caseExpansions_of_lt hc
  have hfound := findSome?_image?_of_lt hc
  have hrun : (CaseRun.image? ⟨0x61, 0x7A, 1, 0x41⟩ c.toNat).elim c Char.ofNat = c.toUpper :=
    forall_ascii (P := fun c =>
      (CaseRun.image? ⟨0x61, 0x7A, 1, 0x41⟩ c.toNat).elim c Char.ofNat = c.toUpper)
      (by decide +kernel) hc
  rw [upperChar, hfound, hlookup, ← hrun]
  cases CaseRun.image? ⟨0x61, 0x7A, 1, 0x41⟩ c.toNat with
  | some code => rfl
  | none => rfl

theorem toUpper_toLower {c : Char} (hc : c.toNat < 128) : c.toLower.toUpper = c.toUpper :=
  forall_ascii (P := fun c => c.toLower.toUpper = c.toUpper) (by decide +kernel) hc

theorem toLower_toUpper {c : Char} (hc : c.toNat < 128) : c.toUpper.toLower = c.toLower :=
  forall_ascii (P := fun c => c.toUpper.toLower = c.toLower) (by decide +kernel) hc

theorem toLower_of_le {c : Char} (hc : 128 ≤ c.toNat) : c.toLower = c := by
  refine dif_neg ?_
  rintro ⟨_, hlast⟩
  have hle : c.toNat ≤ 'Z'.toNat := hlast
  exact absurd (Nat.le_trans hc hle) (by decide)

theorem toLower_lt_iff {c : Char} : c.toLower.toNat < 128 ↔ c.toNat < 128 := by
  rcases Nat.lt_or_ge c.toNat 128 with hc | hc
  · have hlower : c.toLower.toNat < 128 :=
      forall_ascii (P := fun c => c.toLower.toNat < 128) (by decide +kernel) hc
    exact ⟨fun _ => hc, fun _ => hlower⟩
  · rw [toLower_of_le hc]

/-! ## Characters outside ASCII -/

/-- The letters of ASCII that are in the upper-case form of a character outside ASCII. -/
def borrowedLetters : List Char := ['F', 'I', 'S']

theorem borrowedLetters_upper : ∀ c ∈ borrowedLetters, c.toNat < 128 ∧ c.toUpper = c := by
  intro c hc
  simp only [borrowedLetters, List.mem_cons, List.not_mem_nil, or_false] at hc
  rcases hc with rfl | rfl | rfl
  · exact ⟨by decide, rfl⟩
  · exact ⟨by decide, rfl⟩
  · exact ⟨by decide, rfl⟩

theorem le_toNat_ofNat {code : Nat} (hcode : 128 ≤ code) (hvalid : code.isValidChar) :
    128 ≤ (Char.ofNat code).toNat := by
  rw [Char.ofNat, dif_pos hvalid]
  exact hcode

/-- A run of the table that reaches beyond ASCII begins outside it, and ends outside it too or holds
one character that becomes an `I` or an `S`. -/
theorem caseRuns_outside : ∀ run ∈ caseRuns, run.last < 128 ∨ 128 ≤ run.first ∧
    (128 ≤ run.target ∧ run.target + (run.last - run.first) < 0xD800 ∨
      0xDFFF < run.target ∧ run.target + (run.last - run.first) < 0x110000 ∨
        run.first = run.last ∧ Char.ofNat run.target ∈ borrowedLetters) := by
  decide +kernel

theorem caseExpansions_outside : ∀ entry ∈ caseExpansions, ∃ code ∈ entry.2,
    128 ≤ code ∧ code < 0xD800 ∨ Char.ofNat code ∈ borrowedLetters := by
  decide +kernel

theorem image?_outside {run : CaseRun} (hrun : run ∈ caseRuns) {code image : Nat}
    (hcode : 128 ≤ code) (himage : run.image? code = some image) :
    128 ≤ (Char.ofNat image).toNat ∨ Char.ofNat image ∈ borrowedLetters := by
  rw [CaseRun.image?] at himage
  split at himage
  · rename_i hin
    obtain rfl := Option.some.inj himage
    rcases caseRuns_outside run hrun with hascii | ⟨_, hlow | hhigh | hone⟩
    · omega
    · exact Or.inl (le_toNat_ofNat (by omega) (Or.inl (by omega)))
    · exact Or.inl (le_toNat_ofNat (by omega) (Or.inr ⟨by omega, by omega⟩))
    · right
      have hsame : run.target + (code - run.first) = run.target := by omega
      rw [hsame]
      exact hone.2
  · exact absurd himage (by simp)

/-- The upper-case form of a character outside ASCII has a character that is outside ASCII too, or
one of the borrowed letters. -/
theorem exists_mem_upperChar {c : Char} (hc : 128 ≤ c.toNat) :
    ∃ u ∈ upperChar c, 128 ≤ u.toNat ∨ u ∈ borrowedLetters := by
  unfold upperChar
  split
  · rename_i image hfound
    obtain ⟨run, hrun, himage⟩ := List.exists_of_findSome?_eq_some hfound
    exact ⟨Char.ofNat image, List.mem_singleton_self _, image?_outside hrun hc himage⟩
  · split
    · rename_i codes hfound
      obtain ⟨before, after, hentries, _⟩ := List.lookup_eq_some_iff.mp hfound
      obtain ⟨code, hcode, houtside⟩ := caseExpansions_outside (c.toNat, codes) (by
        rw [hentries]
        exact List.mem_append_right before List.mem_cons_self)
      refine ⟨Char.ofNat code, List.mem_map_of_mem hcode, ?_⟩
      exact houtside.imp_left fun h => le_toNat_ofNat h.1 (Or.inl h.2)
    · exact ⟨c, List.mem_singleton_self c, Or.inl hc⟩

/-! ## Texts -/

/-- The case of its letters makes no difference to what a text is alike to. -/
theorem alike_eq_of_alike {left right : String} (halike : alike left right = true) (s : String) :
    alike s left = alike s right := by
  rw [alike, alike, alike_iff.mp halike]

theorem toList_upper_of_ascii {s : String} (hs : ∀ c ∈ s.toList, c.toNat < 128) :
    (upper s).toList = s.toList.map Char.toUpper := by
  rw [upper, String.toList_ofList]
  generalize s.toList = chars at hs ⊢
  induction chars with
  | nil => rfl
  | cons c rest ih =>
      rw [List.forall_mem_cons] at hs
      rw [List.flatMap_cons, upperChar_of_lt hs.1, ih hs.2]
      rfl

/-- A name in upper case that no character outside ASCII can be part of. -/
def IsName (name : String) : Prop :=
  ∀ c ∈ name.toList, c.toNat < 128 ∧ c.toUpper = c ∧ c ∉ borrowedLetters

instance (name : String) : Decidable (IsName name) :=
  List.decidableBAll _ name.toList

section Names

variable {name s : String}

theorem ascii_of_alike (hname : IsName name) (halike : alike name s = true) :
    ∀ c ∈ s.toList, c.toNat < 128 := by
  intro c hc
  have hlower : c.toLower ∈ foldCase name.toList := by
    rw [alike_iff.mp halike]
    exact List.mem_map_of_mem hc
  obtain ⟨d, hd, hsame⟩ := List.mem_map.mp hlower
  rw [← toLower_lt_iff, ← hsame, toLower_lt_iff]
  exact (hname d hd).1

theorem ascii_of_alike_upper (hname : IsName name) (halike : alike name (upper s) = true) :
    ∀ c ∈ s.toList, c.toNat < 128 := by
  intro c hc
  by_contra hout
  obtain ⟨u, hu, hforeign⟩ := exists_mem_upperChar (Nat.le_of_not_lt hout)
  have hupper : u ∈ (upper s).toList := by
    rw [upper, String.toList_ofList]
    exact List.mem_flatMap.mpr ⟨c, hc, hu⟩
  have hlower : u.toLower ∈ foldCase name.toList := by
    rw [alike_iff.mp halike]
    exact List.mem_map_of_mem hupper
  obtain ⟨d, hd, hsame⟩ := List.mem_map.mp hlower
  obtain ⟨hascii, hdupper, hfree⟩ := hname d hd
  rcases hforeign with hle | hborrowed
  · have hlt : u.toNat < 128 := by rwa [← toLower_lt_iff, ← hsame, toLower_lt_iff]
    omega
  · obtain ⟨huascii, huupper⟩ := borrowedLetters_upper u hborrowed
    apply hfree
    rwa [← hdupper, ← toUpper_toLower hascii, hsame, toUpper_toLower huascii, huupper]

theorem foldCase_upper (hs : ∀ c ∈ s.toList, c.toNat < 128) :
    foldCase (upper s).toList = foldCase s.toList := by
  rw [toList_upper_of_ascii hs, foldCase, foldCase, List.map_map]
  apply List.map_congr_left
  intro c hc
  exact toLower_toUpper (hs c hc)

/-- A text is alike to a name when its upper-case form is. -/
theorem alike_upper_iff (hname : IsName name) :
    alike name (upper s) = true ↔ alike name s = true := by
  constructor
  · intro halike
    rw [alike_iff, ← foldCase_upper (ascii_of_alike_upper hname halike)]
    exact alike_iff.mp halike
  · intro halike
    rw [alike_iff, foldCase_upper (ascii_of_alike hname halike)]
    exact alike_iff.mp halike

/-- The upper-case form of a text is a name when the two are alike. -/
theorem upper_eq_iff (hname : IsName name) : upper s = name ↔ alike name s = true := by
  constructor
  · intro hupper
    rw [← alike_upper_iff hname, hupper, alike_iff]
  · intro halike
    have hs := ascii_of_alike hname halike
    apply String.toList_inj.mp
    calc (upper s).toList = s.toList.map Char.toUpper := toList_upper_of_ascii hs
      _ = (foldCase s.toList).map Char.toUpper := by
          rw [foldCase, List.map_map]
          exact List.map_congr_left fun c hc => (toUpper_toLower (hs c hc)).symm
      _ = (foldCase name.toList).map Char.toUpper := by rw [alike_iff.mp halike]
      _ = name.toList := by
          rw [foldCase, List.map_map]
          refine (List.map_congr_left fun c hc => ?_).trans (List.map_id name.toList)
          exact (toUpper_toLower (hname c hc).1).trans (hname c hc).2.1

end Names

end EightBit.Text
