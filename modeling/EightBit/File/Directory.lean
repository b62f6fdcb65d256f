import EightBit.File.Error
import EightBit.File.Path

/-!
# Directories

A directory with files and no directories in it, as the paths of a program see it that runs there.
What lies around it can be named but holds nothing: every name outside is missing.
-/

namespace EightBit

/-- The files of the current directory by their names. -/
structure Directory where
  files : List (String × ByteArray)

namespace Directory

def content? (directory : Directory) (name : String) : Option ByteArray :=
  directory.files.lookup name

/-- The directory with one file more, or with another content of the file. -/
def put (directory : Directory) (name : String) (content : ByteArray) : Directory where
  files := (name, content) :: directory.files.filter (·.1 != name)

/-- A directory that a path may go through. -/
inductive Place where
  | current
  | outside
deriving DecidableEq, Repr

/-- What a path leads to. -/
inductive Target where
  | directory
  | file (name : String) (content : ByteArray)
  /-- A name in the current directory that no file has. -/
  | free (name : String)

/-- Where a name leads that stands in a path behind a directory. -/
def enter (directory : Directory) (place : Place) (name : String) : Except FileError Place :=
  if name = "." then .ok place
  else if name = ".." then .ok .outside
  else
    match place with
    | .outside => .error .missing
    | .current =>
      match directory.content? name with
      | some _ => .error .notDirectory
      | none => .error .missing

/-- What the last name of a path leads to. -/
def last (directory : Directory) (place : Place) (name : String) : Except FileError Target :=
  if name = "." ∨ name = ".." then .ok .directory
  else
    match place with
    | .outside => .error .missing
    | .current =>
      match directory.content? name with
      | some content => .ok (.file name content)
      | none => .ok (.free name)

/-- What the names of a path lead to. -/
def follow (directory : Directory) (place : Place) : List String → Except FileError Target
  | [] => .ok .directory
  | [name] => directory.last place name
  | name :: rest => do
    let place ← directory.enter place name
    directory.follow place rest

def locate (directory : Directory) (path : Path) : Except FileError Target :=
  directory.follow (if path.absolute then .outside else .current) path.names

def read (directory : Directory) (path : String) : Except FileError ByteArray :=
  match Path.ofText? path with
  | none => .error .missing
  | some path => do
    match ← directory.locate path with
    | .directory => .error .isDirectory
    | .file _ content => if path.closed then .error .notDirectory else .ok content
    | .free _ => .error .missing

/-- The directory after a file has been written at a path. -/
def write (directory : Directory) (path : String) (content : ByteArray) :
    Except FileError Directory :=
  match Path.ofText? path with
  | none => .error .missing
  | some path => do
    match ← directory.locate path with
    | .directory => .error .isDirectory
    | .file name _ | .free name =>
      if path.closed then .error .isDirectory else .ok (directory.put name content)

@[simp] theorem content?_put_self (directory : Directory) (name : String) (content : ByteArray) :
    (directory.put name content).content? name = some content := by
  simp [put, content?]

theorem lookup_filter_ne {name other : String} (hne : other ≠ name)
    (files : List (String × ByteArray)) :
    (files.filter (·.1 != name)).lookup other = files.lookup other := by
  induction files with
  | nil => rfl
  | cons file rest ih =>
      obtain ⟨first, content⟩ := file
      by_cases hname : first = name
      · subst hname
        simpa [List.lookup_cons, beq_false_of_ne hne] using ih
      · simp [hname, List.lookup_cons, ih]

theorem content?_put_of_ne (directory : Directory) {name other : String} (content : ByteArray)
    (hne : other ≠ name) :
    (directory.put name content).content? other = directory.content? other := by
  simp [put, content?, List.lookup_cons, beq_false_of_ne hne, lookup_filter_ne hne]

end Directory

end EightBit
