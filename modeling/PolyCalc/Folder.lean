import PolyCalc.Path

/-!
# Folders of Files

The files that the calculator reads and appends to, as a value: a folder is the
list of its files with their contents. A subfolder is there when some file lies
in it, and so is every folder that a path climbs to. Of what lies outside the
folder nothing is known but what was put there.

A path is followed name by name. Each folder on the way is entered, which fails
where there is none; at the end there is a file, a folder, or a vacant place in
a folder. Reading takes a file. Appending takes a file or a vacant place, and
never a path that ends in a slash: it could only lead to a folder, and
appending makes none.

This is a file system with its troubles reduced to those of names. Every file is a
text that can be read and appended to, there are no permissions and no links, and
there is always room. A subfolder without a file does not exist. In particular a
file that can be opened can be written to, so appending is one step that fails as a
whole or not at all, while a system opens a file first and may fail to write to it
afterwards, with a part of the text written.

## Main definitions

* `Folder`: The files of a folder.
* `Location`: What stands at the end of a path.
* `Folder.enter`: One name on the way followed.
* `Folder.find`: What a path leads to.
* `Folder.read`: The content of a file.
* `Folder.append`: A folder with text appended to a file.
* `Folder.changes`: The files that are new or changed.

## Theorems

* `Folder.eq_step_of_enter`: A name that can be entered leads where its spelling
  says.
* `Folder.eq_place_of_find`: A path leads to a file at its own place only.
-/

namespace PolyCalc

/-- The files of a folder: their places and their contents. -/
structure Folder where
  files : List (Place × String)
deriving DecidableEq, Repr

/-- What stands at the end of a path. -/
inductive Location where
  /-- A file with its content. -/
  | file (place : Place) (content : String)
  /-- No file yet, in a folder that there is. -/
  | vacant (place : Place)
  | directory
deriving DecidableEq, Repr

/-- The place that a file has or would get. -/
def Location.place? : Location → Option Place
  | .file place _ => some place
  | .vacant place => some place
  | .directory => none

namespace Folder

/-- The content of the file at a place. -/
def content? (folder : Folder) (place : Place) : Option String := folder.files.lookup place

/-- Is there a file somewhere inside this place? -/
def hasSubfolder (folder : Folder) (place : Place) : Bool :=
  folder.files.any fun (file, _) => file.isInside place

/-- The folder with the content of one file replaced. -/
def write (folder : Folder) (place : Place) (content : String) : Folder :=
  ⟨if (folder.content? place).isSome then
      folder.files.map fun file => if file.1 = place then (place, content) else file
    else folder.files ++ [(place, content)]⟩

/-- The folder with the given files written one after the other. -/
def ofFiles (files : List (String × String)) : Folder :=
  files.foldl
    (fun folder (name, content) =>
      match Path.ofText name with
      | .ok path => folder.write path.place content
      | .error _ => folder)
    ⟨[]⟩

/-- What stands at a place. -/
def stand (folder : Folder) (place : Place) : Location :=
  match folder.content? place with
  | some content => .file place content
  | none => if folder.hasSubfolder place then .directory else .vacant place

/-- What a name leads to in the folder `here`. -/
def look (folder : Folder) (here : Place) (name : String) : Except FileError Location :=
  if name = "." ∨ name = ".." then pure .directory
  else if Path.isTooLong name then throw .nameTooLong
  else pure (folder.stand (here.child name))

/-- The folder that a name leads to from the folder `here`. -/
def enter (folder : Folder) (here : Place) (name : String) : Except FileError Place := do
  match ← folder.look here name with
  | .directory => pure (here.step name)
  | .file _ _ => throw .notADirectory
  | .vacant _ => throw .notFound

/-- The folder that the last name of a path is looked up in. -/
def approach (folder : Folder) (path : Path) : Except FileError Place :=
  path.folders.foldlM folder.enter path.start

/-- What a path leads to. -/
def find (folder : Folder) (path : Path) : Except FileError Location := do
  folder.look (← folder.approach path) path.last

theorem eq_of_place?_stand {folder : Folder} {place q : Place}
    (h : (folder.stand place).place? = some q) : q = place := by
  rw [stand] at h
  split at h
  · exact (Option.some.inj h).symm
  · split at h
    · cases h
    · exact (Option.some.inj h).symm

/-- A name that leads to a file or a vacant place leads where its spelling says. -/
theorem eq_step_of_look {folder : Folder} {here q : Place} {name : String} {l : Location}
    (h : folder.look here name = .ok l) (hq : l.place? = some q) : q = here.step name := by
  rw [look] at h
  split at h
  · cases h
    cases hq
  · rename_i hdots
    rw [not_or] at hdots
    rw [Place.step, if_neg hdots.1, if_neg hdots.2]
    split at h
    · cases h
    · cases h
      exact eq_of_place?_stand hq

/-- A name that can be entered leads where its spelling says. -/
theorem eq_step_of_enter {folder : Folder} {here next : Place} {name : String}
    (h : folder.enter here name = .ok next) : next = here.step name := by
  rw [enter] at h
  cases hlook : folder.look here name with
  | error e =>
    rw [hlook] at h
    cases h
  | ok location =>
    rw [hlook] at h
    cases location with
    | directory =>
      cases h
      rfl
    | file place content => cases h
    | vacant place => cases h

theorem eq_foldl_step_of_foldlM_enter {folder : Folder} {names : List String}
    {start here : Place} (h : names.foldlM folder.enter start = .ok here) :
    here = names.foldl Place.step start := by
  induction names generalizing start with
  | nil =>
    cases h
    rfl
  | cons name rest ih =>
    rw [List.foldlM_cons] at h
    cases henter : folder.enter start name with
    | error e =>
      rw [henter] at h
      cases h
    | ok next =>
      rw [henter] at h
      rw [List.foldl_cons, ← eq_step_of_enter henter]
      exact ih h

/-- A path that can be followed ends at its place. -/
theorem step_approach {folder : Folder} {path : Path} {here : Place}
    (h : folder.approach path = .ok here) : here.step path.last = path.place := by
  rw [Path.place, List.foldl_append, ← eq_foldl_step_of_foldlM_enter h]
  rfl

/-- A path leads to a file, or to a vacant place, at its own place only. So paths
    to one file have one place. -/
theorem eq_place_of_find {folder : Folder} {path : Path} {l : Location} {q : Place}
    (h : folder.find path = .ok l) (hq : l.place? = some q) : q = path.place := by
  rw [find] at h
  cases happroach : folder.approach path with
  | error e =>
    rw [happroach] at h
    cases h
  | ok here =>
    rw [happroach] at h
    exact (eq_step_of_look h hq).trans (step_approach happroach)

/-- The content of the file at a path. -/
def read (folder : Folder) (text : String) : Except FileError String := do
  let path ← Path.ofText text
  match ← folder.find path with
  | .file _ content => if path.endsInSlash then throw .notADirectory else pure content
  | .directory => throw .isADirectory
  | .vacant _ => throw .notFound

/-- The folder with a text appended to the file at a path, which is created
    where there is none. -/
def append (folder : Folder) (text added : String) : Except FileError Folder := do
  let path ← Path.ofText text
  let here ← folder.approach path
  if path.endsInSlash then throw .isADirectory
  match ← folder.look here path.last with
  | .file place content => pure (folder.write place (content ++ added))
  | .vacant place => pure (folder.write place added)
  | .directory => throw .isADirectory

/-- The files in the folder itself and in its subfolders. -/
def ownFiles (folder : Folder) : List (Place × String) :=
  folder.files.filter fun (place, _) => place.isHome

/-- The names of the files in ascending order. -/
def names (folder : Folder) : List String :=
  (folder.ownFiles.map fun (place, _) => place.text).mergeSort fun a b => decide (a ≤ b)

/-- The files that are new or changed since an earlier state of the folder. -/
def changes (folder earlier : Folder) : List (String × String) :=
  (folder.ownFiles.filter fun (place, content) => earlier.content? place ≠ some content).map
    fun (place, content) => (place.text, content)

end Folder

end PolyCalc
