import PolyCalc.Proofs.Folder.Append

/-!
# Where an Append Writes

An append to a path writes at one place or fails, and which of the two depends on the
folders on the way only, not on what files hold. So the place of a path, its target, can
be found before anything is appended, and it says in advance what appends will do.

An append makes no folder. It could do so without meaning to, since a folder is there
when a file lies in it: but the new file lies in folders that its path has entered, so
they were there before. This is why the folders stay the same when a file is written at
a target, and with them the targets of all paths. A path of which the file cannot be
opened now will not be opened after other files were appended to either.

## Main definitions

* `Folder.target`: The place that an append to a path writes at.
* `Folder.SameFolders`: Two folders that have the same subfolders.
* `Folder.LeadsThroughFolders`: The places on the way to a place are folders.

## Theorems

* `target_eq_some_iff`: How a target is found.
* `eq_place_of_target`: A target is where its path spells.
* `append_eq_ok_iff`: An append writes at the target.
* `toOption_read`: What is read is what the target holds.
* `SameFolders.target_eq`: Targets depend on the subfolders only.
* `leadsThroughFolders_approach`: A path that can be followed leads through folders.
* `sameFolders_write`: Writing at a target makes no folder.
* `sameFolders_of_isSome`: What files hold makes no folder either.
-/

namespace PolyCalc

/-- What a location holds, if it is a file. -/
def Location.content? : Location → Option String
  | .file _ content => some content
  | .vacant _ => none
  | .directory => none

namespace Folder

/-- The place that an append to a path writes at, if there is one. -/
def target (folder : Folder) (text : String) : Option Place :=
  match Path.ofText text with
  | .error _ => none
  | .ok path =>
    if path.endsInSlash then none
    else
      match folder.find path with
      | .error _ => none
      | .ok location => location.place?

/-! ## Targets -/

/-- What a name leads to is a file or a vacant place where no folder stands. -/
theorem place?_look_iff {folder : Folder} {here place : Place} {name : String} :
    (∃ l, folder.look here name = .ok l ∧ l.place? = some place)
      ↔ ¬(name = "." ∨ name = "..") ∧ Path.isTooLong name = false
        ∧ folder.stand place ≠ .directory ∧ here.child name = place := by
  constructor
  · rintro ⟨l, hlook, hplace⟩
    rcases look_of_place? hlook hplace with ⟨hdots, hlong, hchild, hstand⟩
    exact ⟨hdots, hlong, stand_ne_directory_of_place? hstand hplace, hchild⟩
  · rintro ⟨hdots, hlong, hstand, rfl⟩
    refine ⟨folder.stand (here.child name), ?_, ?_⟩
    · rw [look, if_neg hdots, hlong]
      rfl
    · unfold stand at hstand ⊢
      cases hcontent : folder.content? (here.child name) with
      | some content => rfl
      | none =>
          by_cases hinside : folder.hasSubfolder (here.child name) = true
          · simp only [hcontent, hinside, if_true, ne_eq, not_true_eq_false] at hstand
          · simp only [hinside, Bool.false_eq_true, if_false]
            rfl

/-- A target is found by following the path to a place in a folder where no folder
    stands. -/
theorem target_eq_some_iff {folder : Folder} {text : String} {place : Place} :
    folder.target text = some place
      ↔ ∃ path here, Path.ofText text = .ok path ∧ path.endsInSlash = false
        ∧ folder.approach path = .ok here
        ∧ ∃ l, folder.look here path.last = .ok l ∧ l.place? = some place := by
  unfold target find
  cases hpath : Path.ofText text with
  | error cause => simp
  | ok path =>
      cases hslash : path.endsInSlash with
      | true => simp [hslash]
      | false =>
          cases happroach : folder.approach path with
          | error cause => simp [happroach, bind, Except.bind]
          | ok here =>
              cases hlook : folder.look here path.last with
              | error cause => simp [hslash, happroach, hlook, bind, Except.bind]
              | ok l => simp [hslash, happroach, hlook, bind, Except.bind]

/-- A place holds what stands there. -/
theorem content?_stand (folder : Folder) (place : Place) :
    (folder.stand place).content? = folder.content? place := by
  unfold stand
  cases folder.content? place with
  | some content => rfl
  | none => cases folder.hasSubfolder place <;> rfl

/-- A target is the place that its path spells, in whatever folder. -/
theorem eq_place_of_target {folder : Folder} {text : String} {path : Path} {place : Place}
    (hpath : Path.ofText text = .ok path) (h : folder.target text = some place) :
    place = path.place := by
  rcases target_eq_some_iff.1 h with ⟨other, here, hother, -, happroach, l, hlook, hplace⟩
  cases hpath.symm.trans hother
  have hfind : folder.find path = .ok l := by
    rw [find, happroach]
    exact hlook
  exact eq_place_of_find hfind hplace

/-- An append writes at the target, and fails where there is none. -/
theorem append_eq_ok_iff {folder after : Folder} {text added : String} :
    folder.append text added = .ok after
      ↔ ∃ place, folder.target text = some place
        ∧ after = folder.write place ((folder.content? place).getD "" ++ added) := by
  have hcontent : ∀ {l : Location} {here place : Place} {name : String},
      folder.look here name = .ok l → l.place? = some place →
      (folder.content? place).getD "" = l.text := by
    intro l here place name hlook hplace
    rcases look_of_place? hlook hplace with ⟨-, -, -, rfl⟩
    rw [← content?_stand]
    cases folder.stand place <;> rfl
  constructor
  · intro h
    rcases exists_of_append h with
      ⟨path, here, place, l, hpath, happroach, hslash, hlook, hplace, rfl⟩
    refine ⟨place, target_eq_some_iff.2 ⟨path, here, hpath, hslash, happroach, l, hlook, hplace⟩,
      ?_⟩
    rw [hcontent hlook hplace]
  · rintro ⟨place, htarget, rfl⟩
    rcases target_eq_some_iff.1 htarget with
      ⟨path, here, hpath, hslash, happroach, l, hlook, hplace⟩
    rw [hcontent hlook hplace]
    unfold append
    simp only [hpath, happroach, hslash, hlook, bind, Except.bind, Bool.false_eq_true, if_false]
    cases l with
    | file q content =>
        cases hplace
        rfl
    | vacant q =>
        cases hplace
        rw [Location.text, String.empty_append]
        rfl
    | directory => cases hplace

/-- Whether a text can be appended does not depend on the text. -/
theorem exists_append_eq_ok_iff {folder : Folder} {text added : String} :
    (∃ after, folder.append text added = .ok after) ↔ (folder.target text).isSome = true := by
  rw [Option.isSome_iff_exists]
  constructor
  · rintro ⟨after, h⟩
    rcases append_eq_ok_iff.1 h with ⟨place, htarget, -⟩
    exact ⟨place, htarget⟩
  · rintro ⟨place, htarget⟩
    exact ⟨_, append_eq_ok_iff.2 ⟨place, htarget, rfl⟩⟩

/-- What is read is what the target holds. -/
theorem toOption_read (folder : Folder) (text : String) :
    (folder.read text).toOption = (folder.target text).bind folder.content? := by
  unfold read target find
  cases hpath : Path.ofText text with
  | error cause => rfl
  | ok path =>
      cases happroach : folder.approach path with
      | error cause =>
          simp only [bind, Except.bind, happroach, ite_self]
          rfl
      | ok here =>
          cases hlook : folder.look here path.last with
          | error cause =>
              simp only [bind, Except.bind, happroach, hlook, ite_self]
              rfl
          | ok l =>
              simp only [bind, Except.bind, happroach, hlook]
              cases hslash : path.endsInSlash with
              | true => cases l <;> rfl
              | false =>
                  cases hplace : l.place? with
                  | none =>
                      cases l with
                      | directory => rfl
                      | file | vacant => cases hplace
                  | some place =>
                      rcases look_of_place? hlook hplace with ⟨-, -, -, rfl⟩
                      simp only [Bool.false_eq_true, if_false, Option.bind_some,
                        ← content?_stand]
                      cases folder.stand place <;> rfl

/-! ## Subfolders -/

/-- Two folders that have the same subfolders, the folder that the program works in and
    the root apart, which are always there. -/
def SameFolders (folder other : Folder) : Prop :=
  ∀ q : Place, q.names ≠ [] → (folder.stand q = .directory ↔ other.stand q = .directory)

theorem child_names_ne_nil (here : Place) (name : String) : (here.child name).names ≠ [] :=
  List.append_ne_nil_of_right_ne_nil _ (List.cons_ne_nil _ _)

namespace SameFolders

variable {folder other : Folder}

theorem symm (h : SameFolders folder other) : SameFolders other folder :=
  fun q hq => (h q hq).symm

theorem approach_imp (h : SameFolders folder other) {path : Path} {here : Place}
    (happroach : folder.approach path = .ok here) : other.approach path = .ok here := by
  unfold approach at happroach ⊢
  generalize path.folders = names at happroach ⊢
  generalize path.start = start at happroach ⊢
  induction names generalizing start with
  | nil => exact happroach
  | cons name names ih =>
      rw [List.foldlM_cons] at happroach ⊢
      rcases exists_of_bind_eq_ok happroach with ⟨next, henter, hrest⟩
      have henter' : other.enter start name = .ok next := by
        simp only [enter_eq_ok_iff, look_eq_directory_iff] at henter ⊢
        rwa [← h (start.child name) (child_names_ne_nil start name)]
      rw [henter']
      exact ih next hrest

theorem target_imp (h : SameFolders folder other) {text : String} {place : Place}
    (htarget : folder.target text = some place) : other.target text = some place := by
  rw [target_eq_some_iff] at htarget ⊢
  rcases htarget with ⟨path, here, hpath, hslash, happroach, hlook⟩
  refine ⟨path, here, hpath, hslash, h.approach_imp happroach, ?_⟩
  rw [place?_look_iff] at hlook ⊢
  rcases hlook with ⟨hdots, hlong, hstand, rfl⟩
  exact ⟨hdots, hlong, mt (h _ (child_names_ne_nil here _)).2 hstand, rfl⟩

/-- Targets depend on the subfolders only. -/
theorem target_eq (h : SameFolders folder other) (text : String) :
    folder.target text = other.target text := by
  refine Option.ext fun place => ⟨h.target_imp, h.symm.target_imp⟩

end SameFolders

/-- The places on the way to a place are folders. -/
def LeadsThroughFolders (folder : Folder) (here : Place) : Prop :=
  ∀ q : Place, q.origin = here.origin → q.names ≠ [] → q.names <+: here.names →
    folder.stand q = .directory

theorem leadsThroughFolders_parent {folder : Folder} {here : Place}
    (h : folder.LeadsThroughFolders here) : folder.LeadsThroughFolders here.parent := by
  have hparent : here.parent.names = here.names.dropLast
      ∧ (here.names ≠ [] → here.parent.origin = here.origin) := by
    unfold Place.parent
    split
    · exact ⟨rfl, fun hne => absurd rfl hne⟩
    · exact ⟨rfl, fun hne => absurd rfl hne⟩
    · exact ⟨rfl, fun _ => rfl⟩
  intro q horigin hq hprefix
  rw [hparent.1] at hprefix
  have hhere := hprefix.trans here.names.dropLast_prefix
  have hne : here.names ≠ [] := by
    intro hnil
    rw [hnil, List.prefix_nil] at hhere
    exact hq hhere
  exact h q (horigin.trans (hparent.2 hne)) hq hhere

theorem leadsThroughFolders_enter {folder : Folder} {here next : Place} {name : String}
    (h : folder.LeadsThroughFolders here) (henter : folder.enter here name = .ok next) :
    folder.LeadsThroughFolders next := by
  rcases enter_eq_ok_iff.1 henter with ⟨hlook, rfl⟩
  rw [look_eq_directory_iff] at hlook
  unfold Place.step
  by_cases hdot : name = "."
  · rw [if_pos hdot]
    exact h
  · rw [if_neg hdot]
    by_cases hdots : name = ".."
    · rw [if_pos hdots]
      exact leadsThroughFolders_parent h
    · rw [if_neg hdots]
      have hstand := (hlook.resolve_left (not_or.2 ⟨hdot, hdots⟩)).2
      intro q horigin hq hprefix
      rcases List.prefix_concat_iff.1 hprefix with heq | hprefix
      · -- The last folder on the way is the one that was entered.
        have hchild : q = here.child name := by
          rcases q with ⟨origin, names⟩
          simp only at horigin heq
          rw [horigin, heq]
          rfl
        rw [hchild]
        exact hstand
      · exact h q horigin hq hprefix

/-- A path that can be followed leads through folders. -/
theorem leadsThroughFolders_approach {folder : Folder} {text : String} {path : Path}
    {here : Place} (hpath : Path.ofText text = .ok path)
    (h : folder.approach path = .ok here) : folder.LeadsThroughFolders here := by
  have hstart : path.start.names = [] := by
    unfold Path.ofText at hpath
    simp only at hpath
    split at hpath
    · cases hpath
    split at hpath
    · cases hpath
    cases hpath
    by_cases hroot : text.toList.head? = some '/'
    · simp only [if_pos hroot]
    · simp only [if_neg hroot]
      rfl
  have hbegin : folder.LeadsThroughFolders path.start := by
    intro q _ hq hprefix
    rw [hstart, List.prefix_nil] at hprefix
    exact absurd hprefix hq
  unfold approach at h
  generalize path.folders = names at h
  generalize path.start = start at h hbegin
  induction names generalizing start with
  | nil =>
      cases h
      exact hbegin
  | cons name names ih =>
      rw [List.foldlM_cons] at h
      rcases exists_of_bind_eq_ok h with ⟨next, henter, hrest⟩
      exact ih next hrest (leadsThroughFolders_enter hbegin henter)

/-- What lies somewhere inside a place after writing lay there before, or was written
    there. -/
theorem hasSubfolder_of_write {folder : Folder} {place q : Place} {content : String}
    (h : (folder.write place content).hasSubfolder q = true) :
    folder.hasSubfolder q = true ∨ place.isInside q = true := by
  rcases List.any_eq_true.1 h with ⟨file, hfile, hinside⟩
  unfold write at hfile
  split at hfile
  · rcases List.mem_map.1 hfile with ⟨old, hold, rfl⟩
    by_cases hplace : old.1 = place
    · rw [if_pos hplace] at hinside
      exact .inr hinside
    · rw [if_neg hplace] at hinside
      exact .inl (List.any_eq_true.2 ⟨old, hold, hinside⟩)
  · rcases List.mem_append.1 hfile with hold | hnew
    · exact .inl (List.any_eq_true.2 ⟨file, hold, hinside⟩)
    · rw [List.mem_singleton.1 hnew] at hinside
      exact .inr hinside

/-- Writing at a target makes no folder, and takes none away. -/
theorem sameFolders_write {folder : Folder} {text : String} {place : Place}
    (htarget : folder.target text = some place) (content : String) :
    folder.SameFolders (folder.write place content) := by
  rcases target_eq_some_iff.1 htarget with ⟨path, here, hpath, -, happroach, hlook⟩
  rcases place?_look_iff.1 hlook with ⟨-, -, hplace, hchild⟩
  have hway := leadsThroughFolders_approach hpath happroach
  intro q hq
  refine ⟨fun h => stand_write_of_directory h hplace content, fun h => ?_⟩
  rcases stand_eq_directory_iff.1 h with ⟨hnone, hinside⟩
  rw [content?_write] at hnone
  have hne : q ≠ place := by
    rintro rfl
    rw [if_pos rfl] at hnone
    cases hnone
  rw [if_neg hne] at hnone
  rcases hasSubfolder_of_write hinside with hold | hnew
  · exact stand_eq_directory_iff.2 ⟨hnone, hold⟩
  · -- The new file lies in `q`, which is a folder on its way.
    simp only [Place.isInside, Bool.and_eq_true, decide_eq_true_eq, List.isPrefixOf_iff_prefix]
      at hnew
    rcases hnew with ⟨⟨horigin, hprefix⟩, -⟩
    rw [← hchild] at horigin hprefix
    rcases List.prefix_concat_iff.1 hprefix with heq | hprefix
    · refine absurd ?_ hne
      rcases q with ⟨origin, names⟩
      simp only [Place.child] at horigin heq
      rw [← hchild, Place.child, ← heq, horigin]
    · exact hway q horigin.symm hq hprefix

/-- The folders are those that the places of files lie in, whatever the files hold. -/
theorem sameFolders_of_isSome {folder other : Folder}
    (h : ∀ place, (folder.content? place).isSome = (other.content? place).isSome) :
    folder.SameFolders other := by
  have hfiles : ∀ place, place ∈ folder.files.map Prod.fst ↔ place ∈ other.files.map Prod.fst := by
    intro place
    rw [← Association.isSome_lookup_iff, ← Association.isSome_lookup_iff]
    exact Bool.eq_iff_iff.1 (h place)
  have hinside : ∀ (a : Folder) (q : Place), a.hasSubfolder q = true
      ↔ ∃ place ∈ a.files.map Prod.fst, place.isInside q = true := by
    intro a q
    simp only [hasSubfolder, List.any_eq_true, List.mem_map]
    constructor
    · rintro ⟨file, hfile, hin⟩
      exact ⟨file.1, ⟨file, hfile, rfl⟩, hin⟩
    · rintro ⟨place, ⟨file, hfile, rfl⟩, hin⟩
      exact ⟨file, hfile, hin⟩
  intro q _
  rw [stand_eq_directory_iff, stand_eq_directory_iff, hinside, hinside]
  have hnone : folder.content? q = none ↔ other.content? q = none := by
    rw [← Option.not_isSome_iff_eq_none, ← Option.not_isSome_iff_eq_none, h q]
  rw [hnone]
  simp only [hfiles]

end Folder

end PolyCalc
