import EightBit.File.Access
import EightBit.Proofs.Results

/-!
# Files by their paths

A path leads to a file when it is relative, goes through nothing but `.` and does not end with a
slash. Reading and writing succeed at such paths only, and both are about the file with the last
name of the path.
-/

namespace EightBit

/-- The path leads to a name in the current directory. -/
def Path.Names (path name : String) : Prop :=
  name ≠ "." ∧ name ≠ ".." ∧
    ∃ steps, Path.ofText? path = some ⟨false, List.replicate steps "." ++ [name], false⟩

theorem Path.Names.unique {path name other : String} (hname : Path.Names path name)
    (hother : Path.Names path other) : name = other := by
  obtain ⟨_, _, steps, hpath⟩ := hname
  obtain ⟨_, _, others, hsame⟩ := hother
  have hnames := congrArg Path.names (Option.some.inj (hpath.symm.trans hsame))
  have hlast := congrArg List.getLast? hnames
  simpa using hlast

namespace Directory

variable {directory : Directory} {place : Place} {path name : String} {names : List String}
  {content : ByteArray}

def target (directory : Directory) (name : String) : Target :=
  match directory.content? name with
  | some content => .file name content
  | none => .free name

/-- The only way to go on through a directory without subdirectories. -/
theorem enter_eq_ok {after : Place} (henter : directory.enter place name = .ok after) :
    name = "." ∧ after = place ∨ name = ".." ∧ after = .outside := by
  unfold enter at henter
  split at henter
  · rename_i hname
    cases henter
    exact Or.inl ⟨hname, rfl⟩
  · split at henter
    · rename_i hname
      cases henter
      exact Or.inr ⟨hname, rfl⟩
    · split at henter
      · cases henter
      · split at henter <;> cases henter

theorem last_eq_ok {found : Target} (hlast : directory.last place name = .ok found) :
    found = .directory ∨
      place = .current ∧ name ≠ "." ∧ name ≠ ".." ∧ found = directory.target name := by
  unfold last at hlast
  by_cases hname : name = "." ∨ name = ".."
  · rw [if_pos hname] at hlast
    cases hlast
    exact Or.inl rfl
  · rw [if_neg hname] at hlast
    obtain ⟨hdot, hdots⟩ := not_or.mp hname
    cases place with
    | outside => cases hlast
    | current =>
        refine Or.inr ⟨rfl, hdot, hdots, ?_⟩
        cases hcontent : directory.content? name with
        | some content =>
            rw [hcontent] at hlast
            cases hlast
            rw [target, hcontent]
        | none =>
            rw [hcontent] at hlast
            cases hlast
            rw [target, hcontent]

theorem follow_cons_cons (directory : Directory) (place : Place) (first second : String)
    (rest : List String) :
    directory.follow place (first :: second :: rest) =
      (directory.enter place first >>= fun place => directory.follow place (second :: rest)) :=
  rfl

/-- What names lead to is a directory, or what the last of them leads to behind nothing but `.`. -/
theorem follow_eq_ok {found : Target} (hfollow : directory.follow place names = .ok found) :
    found = .directory ∨
      place = .current ∧ ∃ steps name, names = List.replicate steps "." ++ [name] ∧
        name ≠ "." ∧ name ≠ ".." ∧ found = directory.target name := by
  induction names generalizing place with
  | nil =>
      cases hfollow
      exact Or.inl rfl
  | cons first rest ih =>
      cases rest with
      | nil =>
          rcases last_eq_ok hfollow with hdirectory | ⟨hplace, hfound⟩
          · exact Or.inl hdirectory
          · exact Or.inr ⟨hplace, 0, first, rfl, hfound⟩
      | cons second rest =>
          rw [follow_cons_cons] at hfollow
          cases henter : directory.enter place first with
          | error error =>
              rw [henter] at hfollow
              cases hfollow
          | ok after =>
              rw [henter] at hfollow
              rcases ih hfollow with hdirectory | ⟨hplace, steps, name, hnames, hfound⟩
              · exact Or.inl hdirectory
              · rcases enter_eq_ok henter with ⟨hfirst, hafter⟩ | ⟨_, hafter⟩
                · refine Or.inr ⟨hafter.symm.trans hplace, steps + 1, name, ?_, hfound⟩
                  rw [hnames, hfirst]
                  rfl
                · rw [hafter] at hplace
                  cases hplace

theorem follow_steps (directory : Directory) (steps : Nat) (hdot : name ≠ ".")
    (hdots : name ≠ "..") :
    directory.follow .current (List.replicate steps "." ++ [name]) =
      .ok (directory.target name) := by
  induction steps with
  | zero =>
      have hname : ¬(name = "." ∨ name = "..") := not_or.mpr ⟨hdot, hdots⟩
      change directory.last .current name = _
      rw [last, if_neg hname, target]
      cases directory.content? name <;> rfl
  | succ steps ih =>
      have hrest : List.replicate steps "." ++ [name] ≠ [] := by simp
      obtain ⟨second, rest, hnames⟩ := List.exists_cons_of_ne_nil hrest
      rw [List.replicate_succ, List.cons_append, hnames, follow_cons_cons, ← hnames]
      exact ih

theorem locate_of_names (hname : Path.Names path name) (directory : Directory) :
    ∃ found, Path.ofText? path = some found ∧ found.closed = false ∧
      directory.locate found = .ok (directory.target name) := by
  obtain ⟨hdot, hdots, steps, hpath⟩ := hname
  exact ⟨_, hpath, rfl, directory.follow_steps steps hdot hdots⟩

theorem names_of_locate {found : Path} {reached : Target} (hpath : Path.ofText? path = some found)
    (hopen : found.closed = false) (hlocate : directory.locate found = .ok reached) :
    reached = .directory ∨ ∃ name, Path.Names path name ∧ reached = directory.target name := by
  obtain ⟨absolute, names, closed⟩ := found
  rcases follow_eq_ok hlocate with hdirectory | ⟨hplace, steps, name, hnames, hdot, hdots, hreached⟩
  · exact Or.inl hdirectory
  · cases absolute with
    | true => cases hplace
    | false =>
        change closed = false at hopen
        change names = _ at hnames
        subst hopen hnames
        exact Or.inr ⟨name, ⟨hdot, hdots, steps, hpath⟩, hreached⟩

theorem target_of_some (hcontent : directory.content? name = some content) :
    directory.target name = .file name content := by
  rw [target, hcontent]

theorem target_of_none (hcontent : directory.content? name = none) :
    directory.target name = .free name := by
  rw [target, hcontent]

/-! ## Reading -/

/-- Reading gives the content of the file that the path leads to. -/
theorem read_eq_ok_iff : directory.read path = .ok content ↔
    ∃ name, Path.Names path name ∧ directory.content? name = some content := by
  constructor
  · intro hread
    rw [read] at hread
    split at hread
    · cases hread
    · rename_i found hpath
      obtain ⟨reached, hlocate, hread⟩ := bind_eq_ok_iff.mp hread
      cases hclosed : found.closed with
      | true =>
          rw [hclosed] at hread
          cases reached <;> cases hread
      | false =>
          rw [hclosed] at hread
          rcases names_of_locate hpath hclosed hlocate with rfl | ⟨name, hname, rfl⟩
          · cases hread
          · cases hcontent : directory.content? name with
            | some held =>
                rw [target_of_some hcontent] at hread
                cases hread
                exact ⟨name, hname, hcontent⟩
            | none =>
                rw [target_of_none hcontent] at hread
                cases hread
  · rintro ⟨name, hname, hcontent⟩
    obtain ⟨found, hpath, hopen, hlocate⟩ := locate_of_names hname directory
    rw [target_of_some hcontent] at hlocate
    simp only [read, hpath, hlocate, hopen]
    rfl

/-! ## Writing -/

/-- The name of the file that writing at a path changes or makes. -/
def written (directory : Directory) (path : String) : Except FileError String :=
  match Path.ofText? path with
  | none => .error .missing
  | some path => do
    match ← directory.locate path with
    | .directory => .error .isDirectory
    | .file name _ | .free name => if path.closed then .error .isDirectory else .ok name

/-- What is written makes no difference to where it goes. -/
theorem write_eq (directory : Directory) (path : String) (content : ByteArray) :
    directory.write path content = (directory.written path).map (directory.put · content) := by
  rw [write, written]
  cases Path.ofText? path with
  | none => rfl
  | some found =>
      change (directory.locate found >>= _) = (directory.locate found >>= _).map _
      cases directory.locate found with
      | error error => rfl
      | ok reached => cases hclosed : found.closed <;> cases reached <;> rfl

theorem written_eq_ok_iff : directory.written path = .ok name ↔ Path.Names path name := by
  constructor
  · intro hwritten
    rw [written] at hwritten
    split at hwritten
    · cases hwritten
    · rename_i found hpath
      obtain ⟨reached, hlocate, hwritten⟩ := bind_eq_ok_iff.mp hwritten
      cases hclosed : found.closed with
      | true =>
          rw [hclosed] at hwritten
          cases reached <;> cases hwritten
      | false =>
          rw [hclosed] at hwritten
          rcases names_of_locate hpath hclosed hlocate with rfl | ⟨other, hname, rfl⟩
          · cases hwritten
          · cases hcontent : directory.content? other with
            | some held =>
                rw [target_of_some hcontent] at hwritten
                cases hwritten
                exact hname
            | none =>
                rw [target_of_none hcontent] at hwritten
                cases hwritten
                exact hname
  · intro hname
    obtain ⟨found, hpath, hopen, hlocate⟩ := locate_of_names hname directory
    simp only [written, hpath, hlocate, hopen]
    cases hcontent : directory.content? name with
    | some held =>
        rw [target_of_some hcontent]
        rfl
    | none =>
        rw [target_of_none hcontent]
        rfl

def Holds (directory : Directory) (path text : String) : Prop :=
  directory.read path = .ok text.toUTF8

theorem fromUTF8?_eq_some_iff {text : String} :
    String.fromUTF8? content = some text ↔ content = text.toUTF8 := by
  rw [String.fromUTF8?]
  constructor
  · intro hread
    split at hread
    · cases hread
      rfl
    · cases hread
  · rintro rfl
    exact dif_pos text.isValidUTF8

/-- A file holds one text at most. -/
theorem Holds.unique {text other : String} (htext : directory.Holds path text)
    (hother : directory.Holds path other) : text = other := by
  have hcontent : text.toUTF8 = other.toUTF8 := Except.ok.inj (htext.symm.trans hother)
  exact String.toByteArray_inj.mp hcontent

theorem holds_put (directory : Directory) (hname : Path.Names path name) (text : String) :
    (directory.put name text.toUTF8).Holds path text :=
  read_eq_ok_iff.mpr ⟨name, hname, content?_put_self directory name _⟩

end Directory

end EightBit
