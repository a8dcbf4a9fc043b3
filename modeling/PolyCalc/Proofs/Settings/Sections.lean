import PolyCalc.Proofs.Association
import PolyCalc.Settings.Document

/-!
# The Map of a Document

A document is a map from titles to sections, and a section a map from keys to values.
Both are kept as lists, and this module says what the two ways in which reading changes
a document do to the maps: opening a section adds a title if there is none and changes
no value, and setting a key changes that value only. Later proofs use these equations
and not the lists.

Lists could hold more than maps do. They never have a title twice, or a key twice in
one section, and with that the sections and entries of the lists are those of the maps.

## Main definitions

* `Document.IsMap`: No title and no key stands twice.

## Theorems

* `find?_openSection`, `lookup_openSection`: Opening a section.
* `find?_assign`, `lookup_assign`: Setting a key.
* `IsMap.find?_eq_some_iff`, `IsMap.lookup_eq_some_iff`: What the lists hold is in the
  maps, and nothing else.
-/

namespace PolyCalc

namespace Section

theorem lookup_assign (s : Section) (key q value : String) :
    (s.assign key value).entries.lookup q
      = if q = key then some value else s.entries.lookup q :=
  Association.lookup_set s.entries key q value

theorem nodup_assign {s : Section} (h : (s.entries.map Prod.fst).Nodup) (key value : String) :
    ((s.assign key value).entries.map Prod.fst).Nodup :=
  Association.nodup_keys_set h key value

end Section

namespace Document

/-- What is found is a section of the title. -/
theorem mem_and_title_of_find? {d : Document} {title : String} {s : Section}
    (h : d.find? title = some s) : s ∈ d.sections ∧ s.title = title := by
  unfold find? at h
  have htitle := List.find?_some h
  simp only [decide_eq_true_eq] at htitle
  exact ⟨List.mem_of_find?_eq_some h, htitle⟩

/-! ## Opening a section -/

theorem find?_openSection (d : Document) (title u : String) :
    (d.openSection title).find? u
      = if u = title then some ((d.find? title).getD ⟨title, []⟩) else d.find? u := by
  unfold openSection
  by_cases hsome : (d.find? title).isSome
  · rw [if_pos hsome]
    by_cases hu : u = title
    · rcases Option.isSome_iff_exists.1 hsome with ⟨s, hs⟩
      rw [if_pos hu, hu, hs, Option.getD_some]
    · rw [if_neg hu]
  · rw [if_neg hsome]
    have hnone : d.find? title = none := Option.not_isSome_iff_eq_none.1 hsome
    have happend : (⟨d.sections ++ [⟨title, []⟩]⟩ : Document).find? u
        = (d.find? u).or ([(⟨title, []⟩ : Section)].find? fun s => s.title = u) :=
      List.find?_append
    rw [happend]
    by_cases hu : u = title
    · simp only [hu, hnone, if_true, Option.none_or, Option.getD_none, List.find?_singleton,
        decide_true]
    · simp only [List.find?_singleton, if_neg hu, Ne.symm hu, decide_false, Bool.false_eq_true,
        if_false, Option.or_none]

theorem isSome_find?_openSection (d : Document) (title u : String) :
    ((d.openSection title).find? u).isSome ↔ u = title ∨ (d.find? u).isSome := by
  rw [find?_openSection]
  by_cases hu : u = title
  · simp only [hu, if_true, Option.isSome_some, true_or]
  · simp only [hu, if_false, false_or]

/-- Opening a section changes no value. -/
theorem lookup_openSection (d : Document) (title u key : String) :
    (d.openSection title).lookup u key = d.lookup u key := by
  unfold lookup
  rw [find?_openSection]
  by_cases hu : u = title
  · rw [if_pos hu, hu]
    cases d.find? title with
    | none => rfl
    | some s => rfl
  · rw [if_neg hu]

/-! ## Setting a key -/

theorem find?_assign (d : Document) (title key value u : String) :
    (d.assign title key value).find? u
      = (d.find? u).map fun s => if u = title then s.assign key value else s := by
  have htitle : ((fun s : Section => decide (s.title = u))
      ∘ fun s => if s.title = title then s.assign key value else s)
      = fun s => decide (s.title = u) := by
    funext s
    by_cases hs : s.title = title
    · simp only [Function.comp_apply, if_pos hs, Section.assign]
    · simp only [Function.comp_apply, if_neg hs]
  have hmap : (d.assign title key value).find? u
      = (d.find? u).map fun s => if s.title = title then s.assign key value else s := by
    unfold find? assign
    rw [List.find?_map, htitle]
  rw [hmap]
  -- A section that was found under `u` has that title.
  cases hfind : d.find? u with
  | none => rfl
  | some s => rw [Option.map_some, Option.map_some, (mem_and_title_of_find? hfind).2]

theorem isSome_find?_assign (d : Document) (title key value u : String) :
    ((d.assign title key value).find? u).isSome ↔ (d.find? u).isSome := by
  rw [find?_assign, Option.isSome_map]

/-- Setting a key in a section that there is changes its value only. -/
theorem lookup_assign {d : Document} {title : String} (h : (d.find? title).isSome)
    (key value u q : String) :
    (d.assign title key value).lookup u q
      = if u = title ∧ q = key then some value else d.lookup u q := by
  unfold lookup
  rw [find?_assign]
  by_cases hu : u = title
  · rcases Option.isSome_iff_exists.1 h with ⟨s, hs⟩
    simp only [hu, hs, Option.map_some, if_true, Option.bind_some, Section.lookup_assign,
      true_and]
  · simp only [hu, if_false, Option.map_id', false_and]

/-! ## Maps -/

/-- No title stands twice, and no key in a section. -/
structure IsMap (d : Document) : Prop where
  titles : (d.sections.map Section.title).Nodup
  keys : ∀ s ∈ d.sections, (s.entries.map Prod.fst).Nodup

theorem isMap_empty : IsMap ⟨[]⟩ := ⟨List.nodup_nil, nofun⟩

theorem isSome_find?_iff (d : Document) (title : String) :
    (d.find? title).isSome ↔ title ∈ d.sections.map Section.title := by
  unfold find?
  simp only [List.find?_isSome, decide_eq_true_eq, List.mem_map]

theorem IsMap.openSection {d : Document} (h : d.IsMap) (title : String) :
    (d.openSection title).IsMap := by
  unfold Document.openSection
  by_cases hsome : (d.find? title).isSome
  · rw [if_pos hsome]
    exact h
  · rw [if_neg hsome]
    rw [isSome_find?_iff] at hsome
    refine ⟨?_, fun s hs => ?_⟩
    · rw [List.map_append, List.nodup_append]
      refine ⟨h.titles, List.nodup_singleton _, fun a ha b hb heq => ?_⟩
      rw [List.map_singleton, List.mem_singleton] at hb
      rw [heq, hb] at ha
      exact hsome ha
    · rcases List.mem_append.1 hs with hs | hs
      · exact h.keys s hs
      · rw [List.mem_singleton.1 hs]
        exact List.nodup_nil

theorem IsMap.assign {d : Document} (h : d.IsMap) (title key value : String) :
    (d.assign title key value).IsMap := by
  refine ⟨?_, fun s hs => ?_⟩
  · have htitles : (d.assign title key value).sections.map Section.title
        = d.sections.map Section.title := by
      unfold Document.assign
      rw [List.map_map]
      refine List.map_congr_left fun s _ => ?_
      by_cases hs : s.title = title
      · simp only [Function.comp_apply, if_pos hs, Section.assign]
      · simp only [Function.comp_apply, if_neg hs]
    rw [htitles]
    exact h.titles
  · rcases List.mem_map.1 hs with ⟨old, hold, rfl⟩
    by_cases htitle : old.title = title
    · rw [if_pos htitle]
      exact Section.nodup_assign (h.keys old hold) key value
    · rw [if_neg htitle]
      exact h.keys old hold

theorem IsMap.find?_eq_some_iff {d : Document} (h : d.IsMap) {title : String} {s : Section} :
    d.find? title = some s ↔ s ∈ d.sections ∧ s.title = title := by
  refine ⟨mem_and_title_of_find?, ?_⟩
  rintro ⟨hs, rfl⟩
  have hsome : (d.find? s.title).isSome :=
    (d.isSome_find?_iff s.title).2 (List.mem_map_of_mem hs)
  rcases Option.isSome_iff_exists.1 hsome with ⟨t, ht⟩
  -- Two sections of one title are the same one.
  rcases mem_and_title_of_find? ht with ⟨hmem, htitle⟩
  rw [ht, List.inj_on_of_nodup_map h.titles hmem hs htitle]

/-- The values of the map are those of the entries. -/
theorem IsMap.lookup_eq_some_iff {d : Document} (h : d.IsMap) {title key value : String} :
    d.lookup title key = some value
      ↔ ∃ s ∈ d.sections, s.title = title ∧ (key, value) ∈ s.entries := by
  unfold lookup
  rw [Option.bind_eq_some_iff]
  constructor
  · rintro ⟨s, hfind, hvalue⟩
    rcases h.find?_eq_some_iff.1 hfind with ⟨hs, htitle⟩
    exact ⟨s, hs, htitle, (Association.lookup_eq_some_iff (h.keys s hs)).1 hvalue⟩
  · rintro ⟨s, hs, htitle, hentry⟩
    exact ⟨s, h.find?_eq_some_iff.2 ⟨hs, htitle⟩,
      (Association.lookup_eq_some_iff (h.keys s hs)).2 hentry⟩

end Document

end PolyCalc
