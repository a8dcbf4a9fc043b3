import PolyCalc.Folder
import PolyCalc.Proofs.Association
import PolyCalc.Proofs.Fallible

/-!
# What Is Read after Appending

Appending to a file and reading it back gives what the file held before with the
new text behind it. Both follow the same path, name by name, and what has to be
shown is that the path still leads to the same place. The folders on the way are
folders because a file lies somewhere in them. Writing a file takes no other
file away, so they still are, and the file that was written is none of them:
appending writes at places that hold a file or nothing, never at a folder.

Appending that fails changes nothing, since there is no folder to go on with.

## Main definitions

* `Location.text`: What a location holds before something is appended there.

## Theorems

* `content?_write`: Writing changes the content of one place.
* `stand_write_of_directory`: Folders stay folders.
* `approach_write`: A path that could be followed still can.
* `exists_of_append`: What an append that succeeds does.
* `read_append`: What is read after an append.
-/

namespace PolyCalc

/-- What a location holds before something is appended there. -/
def Location.text : Location → String
  | .file _ content => content
  | .vacant _ => ""
  | .directory => ""

namespace Folder

/-! ## Writing -/

/-- Writing changes the content of one place, where a file is made if there is none. -/
theorem content?_write (folder : Folder) (place q : Place) (content : String) :
    (folder.write place content).content? q
      = if q = place then some content else folder.content? q :=
  Association.lookup_set folder.files place q content

/-- Writing takes no file out of a folder. -/
theorem hasSubfolder_write {folder : Folder} {q : Place} (h : folder.hasSubfolder q = true)
    (place : Place) (content : String) : (folder.write place content).hasSubfolder q = true := by
  rcases List.any_eq_true.1 h with ⟨file, hfile, hinside⟩
  refine List.any_eq_true.2 ?_
  unfold write
  split
  · refine ⟨_, List.mem_map_of_mem hfile, ?_⟩
    -- The content is replaced where it is the file's own, but not the place.
    by_cases hplace : file.1 = place
    · rw [if_pos hplace]
      exact hplace ▸ hinside
    · rw [if_neg hplace]
      exact hinside
  · exact ⟨file, List.mem_append_left _ hfile, hinside⟩

/-! ## Following a path -/

theorem stand_eq_directory_iff {folder : Folder} {q : Place} :
    folder.stand q = .directory ↔ folder.content? q = none ∧ folder.hasSubfolder q = true := by
  unfold stand
  cases folder.content? q with
  | some content => simp
  | none => simp

/-- A folder stays one when something is written at a place that is none. -/
theorem stand_write_of_directory {folder : Folder} {q place : Place}
    (h : folder.stand q = .directory) (hplace : folder.stand place ≠ .directory)
    (content : String) : (folder.write place content).stand q = .directory := by
  rcases stand_eq_directory_iff.1 h with ⟨hnone, hinside⟩
  refine stand_eq_directory_iff.2 ⟨?_, hasSubfolder_write hinside place content⟩
  have hq : q ≠ place := fun heq => hplace (heq ▸ h)
  rw [content?_write, if_neg hq, hnone]

theorem look_eq_directory_iff {folder : Folder} {here : Place} {name : String} :
    folder.look here name = .ok .directory
      ↔ (name = "." ∨ name = "..")
        ∨ (Path.isTooLong name = false ∧ folder.stand (here.child name) = .directory) := by
  unfold look
  by_cases hdots : name = "." ∨ name = ".."
  · rw [if_pos hdots]
    exact iff_of_true rfl (.inl hdots)
  · rw [if_neg hdots, or_iff_right hdots]
    cases hlong : Path.isTooLong name with
    | true => simp [throw, throwThe, MonadExceptOf.throw]
    | false => simp [pure, Except.pure]

theorem enter_eq_ok_iff {folder : Folder} {here next : Place} {name : String} :
    folder.enter here name = .ok next
      ↔ folder.look here name = .ok .directory ∧ next = here.step name := by
  unfold enter
  cases folder.look here name with
  | error cause => simp [bind, Except.bind]
  | ok location =>
      cases location with
      | directory => simp [bind, Except.bind, pure, Except.pure, eq_comm]
      | file place content => simp [bind, Except.bind, throw, throwThe, MonadExceptOf.throw]
      | vacant place => simp [bind, Except.bind, throw, throwThe, MonadExceptOf.throw]

theorem enter_write {folder : Folder} {here next place : Place} {name : String}
    (h : folder.enter here name = .ok next) (hplace : folder.stand place ≠ .directory)
    (content : String) : (folder.write place content).enter here name = .ok next := by
  rcases enter_eq_ok_iff.1 h with ⟨hlook, hnext⟩
  refine enter_eq_ok_iff.2 ⟨look_eq_directory_iff.2 ?_, hnext⟩
  rcases look_eq_directory_iff.1 hlook with hdots | ⟨hlong, hstand⟩
  · exact .inl hdots
  · exact .inr ⟨hlong, stand_write_of_directory hstand hplace content⟩

theorem foldlM_enter_write {folder : Folder} {names : List String} {start here place : Place}
    (h : names.foldlM folder.enter start = .ok here) (hplace : folder.stand place ≠ .directory)
    (content : String) :
    names.foldlM (folder.write place content).enter start = .ok here := by
  induction names generalizing start with
  | nil => exact h
  | cons name names ih =>
      rw [List.foldlM_cons] at h ⊢
      cases henter : folder.enter start name with
      | error cause =>
          rw [henter] at h
          cases h
      | ok next =>
          rw [henter] at h
          rw [enter_write henter hplace content]
          exact ih h

/-- A path that could be followed still can when something is written at a place
    that is no folder. -/
theorem approach_write {folder : Folder} {path : Path} {here place : Place}
    (h : folder.approach path = .ok here) (hplace : folder.stand place ≠ .directory)
    (content : String) : (folder.write place content).approach path = .ok here :=
  foldlM_enter_write h hplace content

/-! ## Appending -/

/-- A name that leads to a place leads to what stands there. -/
theorem look_of_place? {folder : Folder} {here place : Place} {name : String} {l : Location}
    (h : folder.look here name = .ok l) (hl : l.place? = some place) :
    ¬(name = "." ∨ name = "..") ∧ Path.isTooLong name = false ∧ here.child name = place
      ∧ folder.stand place = l := by
  unfold look at h
  split at h
  · cases h
    cases hl
  · rename_i hdots
    split at h
    · cases h
    · rename_i hlong
      cases h
      have hplace := eq_of_place?_stand hl
      subst hplace
      exact ⟨hdots, Bool.eq_false_iff.2 hlong, rfl, rfl⟩

theorem stand_ne_directory_of_place? {folder : Folder} {place q : Place} {l : Location}
    (h : folder.stand place = l) (hl : l.place? = some q) : folder.stand place ≠ .directory := by
  rw [h]
  intro hdirectory
  rw [hdirectory] at hl
  cases hl

/-- An append that succeeds has followed its path to a file or to a vacant place, and
    writes there what it held with the new text behind it. -/
theorem exists_of_append {folder after : Folder} {text added : String}
    (h : folder.append text added = .ok after) :
    ∃ path here place location, Path.ofText text = .ok path ∧ folder.approach path = .ok here
      ∧ path.endsInSlash = false ∧ folder.look here path.last = .ok location
      ∧ location.place? = some place ∧ after = folder.write place (location.text ++ added) := by
  rcases exists_of_bind_eq_ok h with ⟨path, hpath, h⟩
  rcases exists_of_bind_eq_ok h with ⟨here, happroach, h⟩
  cases hslash : path.endsInSlash with
  | true =>
      rw [hslash] at h
      cases h
  | false =>
      rw [hslash] at h
      rcases exists_of_bind_eq_ok h with ⟨location, hlook, h⟩
      cases location with
      | directory => cases h
      | file place content =>
          cases h
          exact ⟨path, here, place, _, hpath, happroach, hslash, hlook, rfl, rfl⟩
      | vacant place =>
          cases h
          refine ⟨path, here, place, _, hpath, happroach, hslash, hlook, rfl, ?_⟩
          rw [Location.text, String.empty_append]

/-- A path that does not end in a slash is read at its place. -/
theorem read_of_look {folder : Folder} {text : String} {path : Path} {here : Place} {l : Location}
    (hpath : Path.ofText text = .ok path) (happroach : folder.approach path = .ok here)
    (hslash : path.endsInSlash = false) (hlook : folder.look here path.last = .ok l) :
    folder.read text = match l with
      | .file _ content => .ok content
      | .directory => .error .isADirectory
      | .vacant _ => .error .notFound := by
  unfold read find
  simp only [hpath, happroach, hlook, hslash, bind, Except.bind]
  cases l <;> rfl

/-- What is read after an append is what was read before, or nothing where there was
    no file, with the new text behind it. -/
theorem read_append {folder after : Folder} {text added : String}
    (h : folder.append text added = .ok after) :
    after.read text = .ok ((folder.read text).toOption.getD "" ++ added) := by
  rcases exists_of_append h with
    ⟨path, here, place, location, hpath, happroach, hslash, hlook, hplace, rfl⟩
  rcases look_of_place? hlook hplace with ⟨hdots, hlong, hchild, hstand⟩
  have hnot := stand_ne_directory_of_place? hstand hplace
  -- The same path leads to the same place, where the new content stands.
  have hlookAfter : (folder.write place (location.text ++ added)).look here path.last
      = .ok (.file place (location.text ++ added)) := by
    unfold look stand
    rw [if_neg hdots, hlong, hchild, content?_write, if_pos rfl]
    rfl
  have hbefore : (folder.read text).toOption.getD "" = location.text := by
    rw [read_of_look hpath happroach hslash hlook]
    cases location <;> rfl
  rw [read_of_look hpath (approach_write happroach hnot _) hslash hlookAfter, hbefore]

end Folder

end PolyCalc
