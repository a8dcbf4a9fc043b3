import PolyCalc.Proofs.Settings.Entries
import PolyCalc.Proofs.Settings.Meaning

/-!
# Visits in Any Order

The settings of a document are collected entry by entry, section by section, in an order
that nobody has chosen. A visit is any order of the sections and, in each, any order of
its entries.

Entries could get into each other's way by setting the same thing. They do not, because
each setting is governed by one key, and no key has two values in a map. So the outcome
of a visit can be said without its order: a setting is what the value of its key makes of
it, or the default where the key is missing. Two visits that succeed agree for that
reason, and no exchange of two entries has to be looked at.

A visit that fails stops at some fault of the document, and which one depends on the
order. That it fails does not, since a visit that succeeds has found every title known
and every entry valid.

With the meaning of documents this becomes a statement on texts: only the last value
written for a key counts. A value that was overwritten leaves no trace, valid or not.

## Main definitions

* `rows`: The entries of sections with their titles.
* `IsVisit`: An order of the sections and entries of a document.
* `Governs`: A key and the setting that it governs.
* `AtFault`: The faults of a document.
* `FollowsLastValues`: What the settings of a text are.
* `IsOrderFree`: What can be said of all visits of a document.

## Theorems

* `Governs.foldlM`: A setting after the entries of its key and any others.
* `visit_eq_foldlM`: A visit of known sections is one pass over the entries.
* `atFault_of_visit`: A visit fails with a fault of the document.
* `exists_visit_iff`: A visit succeeds if all is known and valid.
* `visit_is_order_free`: The order of a visit does not matter.
-/

namespace PolyCalc

namespace Settings

/-! ## Visits -/

/-- The entries of sections, each with the title of its section. -/
def rows (parts : List Section) : List ((String × String) × String) :=
  parts.flatMap fun part => part.entries.map fun entry => ((part.title, entry.1), entry.2)

/-- The sections of a document in some order, each with its entries in some order. -/
def IsVisit (d : Document) (parts : List Section) : Prop :=
  ∃ order, order.Perm d.sections
    ∧ List.Forall₂ (fun part s => part.title = s.title ∧ part.entries.Perm s.entries) parts order

theorem isVisit_sections (d : Document) : IsVisit d d.sections :=
  ⟨d.sections, .refl _, List.forall₂_same.2 fun _ _ => ⟨rfl, .refl _⟩⟩

theorem mem_rows_iff {parts : List Section} {title key value : String} :
    ((title, key), value) ∈ rows parts
      ↔ ∃ part ∈ parts, part.title = title ∧ (key, value) ∈ part.entries := by
  simp only [rows, List.mem_flatMap, List.mem_map, Prod.mk.injEq, Prod.exists]
  constructor
  · rintro ⟨part, hpart, k, v, hentry, ⟨htitle, rfl⟩, rfl⟩
    exact ⟨part, hpart, htitle, hentry⟩
  · rintro ⟨part, hpart, htitle, hentry⟩
    exact ⟨part, hpart, key, value, hentry, ⟨htitle, rfl⟩, rfl⟩

namespace IsVisit

variable {d : Document} {parts : List Section}

theorem perm_titles (h : IsVisit d parts) :
    (parts.map Section.title).Perm (d.sections.map Section.title) := by
  rcases h with ⟨order, horder, hparts⟩
  have htitles : parts.map Section.title = order.map Section.title := by
    rw [← List.forall₂_eq_eq_eq, List.forall₂_map_left_iff, List.forall₂_map_right_iff]
    exact hparts.imp fun part s h => h.1
  rw [htitles]
  exact horder.map _

theorem perm_rows (h : IsVisit d parts) : (rows parts).Perm (rows d.sections) := by
  rcases h with ⟨order, horder, hparts⟩
  have hrows : (rows parts).Perm (rows order) := by
    clear horder
    induction hparts with
    | nil => exact .refl _
    | cons hpart _ ih =>
        unfold rows at ih ⊢
        rw [List.flatMap_cons, List.flatMap_cons, hpart.1]
        exact (hpart.2.map _).append ih
  exact hrows.trans (horder.flatMap_right _)

end IsVisit

theorem mem_rows_sections_iff {d : Document} (h : d.IsMap) {title key value : String} :
    ((title, key), value) ∈ rows d.sections ↔ d.lookup title key = some value := by
  rw [h.lookup_eq_some_iff, mem_rows_iff]

/-- No key has two values in a map. -/
theorem nodup_keys_rows {d : Document} (h : d.IsMap) :
    ((rows d.sections).map Prod.fst).Nodup := by
  rcases h with ⟨htitles, hkeys⟩
  generalize d.sections = parts at htitles hkeys
  induction parts with
  | nil => exact List.nodup_nil
  | cons part parts ih =>
      rw [List.map_cons, List.nodup_cons] at htitles
      have hfirst : ((part.entries.map fun entry => ((part.title, entry.1), entry.2)).map
          Prod.fst).Nodup := by
        rw [List.map_map]
        have hpart := hkeys part List.mem_cons_self
        have hpairs : (Prod.fst ∘ fun entry : String × String => ((part.title, entry.1), entry.2))
            = (fun key => (part.title, key)) ∘ Prod.fst := rfl
        rw [hpairs, ← List.map_map]
        exact hpart.map fun a b hab => (Prod.mk.inj hab).2
      have hrest := ih htitles.2 fun s hs => hkeys s (List.mem_cons_of_mem _ hs)
      rw [rows, List.flatMap_cons, List.map_append, List.nodup_append]
      refine ⟨hfirst, hrest, ?_⟩
      -- Rows of two sections differ in their titles.
      rintro ⟨title, key⟩ ha ⟨title', key'⟩ hb heq
      cases heq
      simp only [List.map_map, List.mem_map, Function.comp_apply, Prod.mk.injEq, Prod.exists] at ha
      rcases ha with ⟨k, v, -, rfl, -⟩
      rcases List.mem_map.1 hb with ⟨⟨⟨t, k'⟩, v'⟩, hrow, hkey⟩
      cases hkey
      rcases mem_rows_iff.1 hrow with ⟨s, hs, htitle, -⟩
      exact htitles.1 (htitle ▸ List.mem_map_of_mem hs)

/-! ## One pass over the entries -/

/-- The settings after a row. -/
def applyRow (s : Settings) (row : (String × String) × String) : Except SettingsFault Settings :=
  s.apply row.1.1 row.1.2 row.2

theorem visitSection_of_isKnownTitle (s : Settings) {part : Section}
    (h : IsKnownTitle part.title) :
    visitSection s part
      = (part.entries.map fun entry => ((part.title, entry.1), entry.2)).foldlM applyRow s := by
  unfold IsKnownTitle at h
  rw [visitSection, if_pos h, List.foldlM_map]
  rfl

/-- A visit of known sections is one pass over the entries. -/
theorem visit_eq_foldlM (s : Settings) {parts : List Section}
    (h : ∀ part ∈ parts, IsKnownTitle part.title) :
    visit s parts = (rows parts).foldlM applyRow s := by
  unfold visit
  induction parts generalizing s with
  | nil => rfl
  | cons part parts ih =>
      rw [List.foldlM_cons, rows, List.flatMap_cons, List.foldlM_append,
        visitSection_of_isKnownTitle s (h part List.mem_cons_self)]
      refine congrArg _ (funext fun s' => ?_)
      exact ih s' fun p hp => h p (List.mem_cons_of_mem _ hp)

/-- A visit that succeeds has found every title known. -/
theorem isKnownTitle_of_visit {parts : List Section} {s s' : Settings}
    (h : visit s parts = .ok s') : ∀ part ∈ parts, IsKnownTitle part.title := by
  unfold visit at h
  induction parts generalizing s with
  | nil => nofun
  | cons part parts ih =>
      rw [List.foldlM_cons] at h
      rcases exists_of_bind_eq_ok h with ⟨next, hsection, hrest⟩
      intro p hp
      rcases List.mem_cons.1 hp with rfl | hp
      · by_contra hunknown
        unfold IsKnownTitle at hunknown
        rw [visitSection, if_neg hunknown] at hsection
        cases hsection
      · exact ih hrest p hp

theorem isKnownTitle_of_mem_rows {parts : List Section}
    (h : ∀ part ∈ parts, IsKnownTitle part.title) : ∀ row ∈ rows parts, IsKnownTitle row.1.1 := by
  rintro ⟨⟨title, key⟩, value⟩ hrow
  rcases mem_rows_iff.1 hrow with ⟨part, hpart, rfl, -⟩
  exact h part hpart

/-! ## Settings and their keys -/

/-- A key governs a setting: its entries make it what their values stand for, and all
    other entries leave it as it is. -/
def Governs {γ : Type} (title key : String) (field : Settings → γ)
    (stands : String → γ → Prop) : Prop :=
  ∀ s t k value s', Applied s t k value s' →
    if t = title ∧ k = key then stands value (field s') else field s' = field s

theorem governs_verbosity : Governs "logging" "level" verbosity Verbosity.IsLevel := by
  intro s t k value s' h
  cases h with
  | level _ v hv => exact hv
  | console | logFile | resultsFile => rfl

theorem governs_console :
    Governs "logging" "console" console fun word b => word = if b then "true" else "false" := by
  intro s t k value s' h
  cases h with
  | level | logFile | resultsFile => rfl
  | console b => rfl

theorem governs_logFile :
    Governs "logging" "file" logFile fun value file =>
      file = if NamesNoFile value then none else some value := by
  intro s t k value s' h
  cases h with
  | level | console | resultsFile => rfl
  | logFile => rfl

theorem governs_resultsFile :
    Governs "results" "file" resultsFile fun value file => value ≠ "" ∧ file = value := by
  intro s t k value s' h
  cases h with
  | level | console | logFile => rfl
  | resultsFile _ hvalue => exact ⟨hvalue, rfl⟩

/-- After a pass over entries without two of one key, a setting is what the value of its
    key stands for, or what it was before. -/
theorem Governs.foldlM {γ : Type} {title key : String} {field : Settings → γ}
    {stands : String → γ → Prop} (hgoverns : Governs title key field stands)
    {entries : List ((String × String) × String)} (hkeys : (entries.map Prod.fst).Nodup)
    (hknown : ∀ row ∈ entries, IsKnownTitle row.1.1) {s s' : Settings}
    (h : entries.foldlM applyRow s = .ok s') :
    (∀ value, ((title, key), value) ∈ entries → stands value (field s'))
      ∧ ((∀ value, ((title, key), value) ∉ entries) → field s' = field s) := by
  induction entries generalizing s with
  | nil =>
      cases h
      exact ⟨nofun, fun _ => rfl⟩
  | cons row entries ih =>
      rcases row with ⟨⟨t, k⟩, value⟩
      rw [List.map_cons, List.nodup_cons] at hkeys
      rw [List.foldlM_cons] at h
      rcases exists_of_bind_eq_ok h with ⟨next, hrow, hrest⟩
      have happlied := (apply_eq_ok_iff s (hknown _ List.mem_cons_self)).1 hrow
      have hstep := hgoverns s t k value next happlied
      have hlater := ih hkeys.2 (fun r hr => hknown r (List.mem_cons_of_mem _ hr)) hrest
      by_cases hkey : t = title ∧ k = key
      · rcases hkey with ⟨rfl, rfl⟩
        rw [if_pos ⟨rfl, rfl⟩] at hstep
        -- No later entry has the key again, so what this one set is kept.
        have hnone : ∀ v, ((t, k), v) ∉ entries := by
          intro v hv
          exact hkeys.1 (List.mem_map.2 ⟨_, hv, rfl⟩)
        have hkept := hlater.2 hnone
        refine ⟨fun v hv => ?_, fun hall => absurd List.mem_cons_self (hall value)⟩
        rcases List.mem_cons.1 hv with heq | hv
        · cases heq
          rw [hkept]
          exact hstep
        · exact absurd hv (hnone v)
      · rw [if_neg hkey] at hstep
        refine ⟨fun v hv => ?_, fun hall => ?_⟩
        · rcases List.mem_cons.1 hv with heq | hv
          · cases heq
            exact absurd ⟨rfl, rfl⟩ hkey
          · exact hlater.1 v hv
        · rw [hlater.2 fun v hv => hall v (List.mem_cons_of_mem _ hv), hstep]

/-- After a pass that succeeds, every entry was valid. -/
theorem isValid_of_foldlM {entries : List ((String × String) × String)}
    (hknown : ∀ row ∈ entries, IsKnownTitle row.1.1) {s s' : Settings}
    (h : entries.foldlM applyRow s = .ok s') :
    ∀ title key value, ((title, key), value) ∈ entries → IsValid title key value := by
  induction entries generalizing s with
  | nil => nofun
  | cons row entries ih =>
      rw [List.foldlM_cons] at h
      rcases exists_of_bind_eq_ok h with ⟨next, hrow, hrest⟩
      intro title key value hmem
      rcases List.mem_cons.1 hmem with rfl | hmem
      · have happlied := (apply_eq_ok_iff s (hknown _ List.mem_cons_self)).1 hrow
        exact (exists_applied_iff s).1 ⟨next, happlied⟩
      · exact ih (fun r hr => hknown r (List.mem_cons_of_mem _ hr)) hrest title key value hmem

/-- A pass that fails has met a fault. -/
theorem exists_isFaulty_of_foldlM {entries : List ((String × String) × String)}
    (hknown : ∀ row ∈ entries, IsKnownTitle row.1.1) {s : Settings} {fault : SettingsFault}
    (h : entries.foldlM applyRow s = .error fault) :
    ∃ title key value, ((title, key), value) ∈ entries ∧ IsFaulty title key value fault := by
  induction entries generalizing s with
  | nil => cases h
  | cons row entries ih =>
      rw [List.foldlM_cons] at h
      cases hrow : applyRow s row with
      | error other =>
          rw [hrow] at h
          cases h
          exact ⟨_, _, _, List.mem_cons_self,
            (apply_eq_error_iff s (hknown _ List.mem_cons_self)).1 hrow⟩
      | ok next =>
          rw [hrow] at h
          rcases ih (fun r hr => hknown r (List.mem_cons_of_mem _ hr)) h with
            ⟨title, key, value, hmem, hfaulty⟩
          exact ⟨title, key, value, List.mem_cons_of_mem _ hmem, hfaulty⟩

/-! ## Faults -/

/-- The faults of a document: sections that are not known, and entries of known sections
    that have a fault. -/
inductive AtFault (d : Document) : SettingsFault → Prop where
  | title (title : String) (h : (d.find? title).isSome) (hunknown : ¬IsKnownTitle title) :
      AtFault d (.unknownSection title)
  | entry (title key value : String) (fault : SettingsFault)
      (h : d.lookup title key = some value) (hfaulty : IsFaulty title key value fault) :
      AtFault d fault

/-- What is valid has no fault. -/
theorem IsValid.not_isFaulty {title key value : String} (h : IsValid title key value)
    (fault : SettingsFault) : ¬IsFaulty title key value fault := by
  intro hfaulty
  rcases (exists_applied_iff {}).2 h with ⟨s', happlied⟩
  have hok := (apply_eq_ok_iff {} h.isKnownTitle).2 happlied
  have herror := (apply_eq_error_iff {} h.isKnownTitle).2 hfaulty
  rw [hok] at herror
  cases herror

/-- A document with a fault has a section that is not known or an entry that is not
    valid. -/
theorem AtFault.not_accepted {d : Document} {fault : SettingsFault} (h : AtFault d fault)
    (hknown : ∀ title, (d.find? title).isSome → IsKnownTitle title) :
    ¬∀ title key value, d.lookup title key = some value → IsValid title key value := by
  intro hvalid
  cases h with
  | title title htitle hunknown => exact hunknown (hknown title htitle)
  | entry title key value _ hvalue hfaulty =>
      exact (hvalid title key value hvalue).not_isFaulty fault hfaulty

section

variable {d : Document} (hd : d.IsMap) {parts : List Section} (hparts : IsVisit d parts)

include hd hparts

theorem mem_rows_iff_lookup {title key value : String} :
    ((title, key), value) ∈ rows parts ↔ d.lookup title key = some value := by
  rw [hparts.perm_rows.mem_iff, mem_rows_sections_iff hd]

omit hd in
theorem isSome_find?_of_mem {part : Section} (h : part ∈ parts) :
    (d.find? part.title).isSome := by
  rw [d.isSome_find?_iff, ← hparts.perm_titles.mem_iff]
  exact List.mem_map_of_mem h

/-- A visit fails with a fault of the document. -/
theorem atFault_of_visit {s : Settings} {fault : SettingsFault}
    (h : visit s parts = .error fault) : AtFault d fault := by
  have hvisit : ∃ part ∈ parts, ∃ s', visitSection s' part = .error fault := by
    unfold visit at h
    clear hparts
    induction parts generalizing s with
    | nil => cases h
    | cons part parts ih =>
        rw [List.foldlM_cons] at h
        cases hsection : visitSection s part with
        | error other =>
            rw [hsection] at h
            cases h
            exact ⟨part, List.mem_cons_self, s, hsection⟩
        | ok next =>
            rw [hsection] at h
            rcases ih h with ⟨p, hp, hfault⟩
            exact ⟨p, List.mem_cons_of_mem _ hp, hfault⟩
  rcases hvisit with ⟨part, hpart, s', hsection⟩
  by_cases hknown : IsKnownTitle part.title
  · rw [visitSection_of_isKnownTitle s' hknown] at hsection
    have hrows : ∀ row ∈ part.entries.map fun entry => ((part.title, entry.1), entry.2),
        IsKnownTitle row.1.1 := by
      intro row hrow
      rcases List.mem_map.1 hrow with ⟨entry, -, rfl⟩
      exact hknown
    rcases exists_isFaulty_of_foldlM hrows hsection with ⟨title, key, value, hmem, hfaulty⟩
    rcases List.mem_map.1 hmem with ⟨entry, hentry, heq⟩
    cases heq
    refine .entry part.title entry.1 entry.2 fault ?_ hfaulty
    exact (mem_rows_iff_lookup hd hparts).1 (mem_rows_iff.2 ⟨part, hpart, rfl, hentry⟩)
  · have hunknown := hknown
    unfold IsKnownTitle at hunknown
    rw [visitSection, if_neg hunknown] at hsection
    cases hsection
    exact .title part.title (isSome_find?_of_mem hparts hpart) hknown

/-- A visit succeeds if every section is known and every entry valid. -/
theorem exists_visit_iff :
    (∃ s, visit {} parts = .ok s)
      ↔ (∀ title, (d.find? title).isSome → IsKnownTitle title)
        ∧ ∀ title key value, d.lookup title key = some value → IsValid title key value := by
  constructor
  · rintro ⟨s, hs⟩
    have hknown := isKnownTitle_of_visit hs
    rw [visit_eq_foldlM {} hknown] at hs
    refine ⟨fun title htitle => ?_, fun title key value hvalue => ?_⟩
    · rw [d.isSome_find?_iff, ← hparts.perm_titles.mem_iff] at htitle
      rcases List.mem_map.1 htitle with ⟨part, hpart, rfl⟩
      exact hknown part hpart
    · refine isValid_of_foldlM (isKnownTitle_of_mem_rows hknown) hs title key value ?_
      exact (mem_rows_iff_lookup hd hparts).2 hvalue
  · rintro ⟨hknown, hvalid⟩
    cases hvisit : visit {} parts with
    | ok s => exact ⟨s, rfl⟩
    | error fault =>
        exact absurd hvalid ((atFault_of_visit hd hparts hvisit).not_accepted hknown)

end

/-! ## The settings of a text -/

/-- Settings are what the values of their keys stand for, and the defaults where keys
    have no value. -/
structure FollowsValues (hasValue : String → String → String → Prop) (s : Settings) : Prop where
  verbosity : ∀ word, hasValue "logging" "level" word → Verbosity.IsLevel word s.verbosity
  defaultVerbosity : (∀ word, ¬hasValue "logging" "level" word) → s.verbosity = .upTo .info
  console : ∀ word, hasValue "logging" "console" word →
    word = if s.console then "true" else "false"
  defaultConsole : (∀ word, ¬hasValue "logging" "console" word) → s.console = false
  logFile : ∀ value, hasValue "logging" "file" value →
    s.logFile = if NamesNoFile value then none else some value
  defaultLogFile : (∀ value, ¬hasValue "logging" "file" value) →
    s.logFile = some "PolynomialApp.log"
  resultsFile : ∀ value, hasValue "results" "file" value → value ≠ "" ∧ s.resultsFile = value
  defaultResultsFile : (∀ value, ¬hasValue "results" "file" value) →
    s.resultsFile = "PolynomialResults.txt"

/-- The values leave no choice of the settings. -/
theorem FollowsValues.unique {hasValue : String → String → String → Prop} {s s' : Settings}
    (h : FollowsValues hasValue s) (h' : FollowsValues hasValue s') : s = s' := by
  have hverbosity : s.verbosity = s'.verbosity := by
    by_cases hvalue : ∃ word, hasValue "logging" "level" word
    · rcases hvalue with ⟨word, hword⟩
      have hlevel := Verbosity.ofName_eq_ok_iff.2 (h.verbosity word hword)
      have hlevel' := Verbosity.ofName_eq_ok_iff.2 (h'.verbosity word hword)
      exact Except.ok.inj (hlevel.symm.trans hlevel')
    · rw [not_exists] at hvalue
      rw [h.defaultVerbosity hvalue, h'.defaultVerbosity hvalue]
  have hconsole : s.console = s'.console := by
    by_cases hvalue : ∃ word, hasValue "logging" "console" word
    · rcases hvalue with ⟨word, hword⟩
      have hswitch := readSwitch_eq_ok_iff.2 (h.console word hword)
      have hswitch' := readSwitch_eq_ok_iff.2 (h'.console word hword)
      exact Except.ok.inj (hswitch.symm.trans hswitch')
    · rw [not_exists] at hvalue
      rw [h.defaultConsole hvalue, h'.defaultConsole hvalue]
  have hlogFile : s.logFile = s'.logFile := by
    by_cases hvalue : ∃ value, hasValue "logging" "file" value
    · rcases hvalue with ⟨value, hfile⟩
      rw [h.logFile value hfile, h'.logFile value hfile]
    · rw [not_exists] at hvalue
      rw [h.defaultLogFile hvalue, h'.defaultLogFile hvalue]
  have hresultsFile : s.resultsFile = s'.resultsFile := by
    by_cases hvalue : ∃ value, hasValue "results" "file" value
    · rcases hvalue with ⟨value, hfile⟩
      rw [(h.resultsFile value hfile).2, (h'.resultsFile value hfile).2]
    · rw [not_exists] at hvalue
      rw [h.defaultResultsFile hvalue, h'.defaultResultsFile hvalue]
  rcases s with ⟨verbosity, console, logFile, resultsFile⟩
  simp only at hverbosity hconsole hlogFile hresultsFile
  rw [hverbosity, hconsole, hlogFile, hresultsFile]

/-- A visit that succeeds follows the values of the document. -/
theorem followsValues_of_visit {d : Document} (hd : d.IsMap) {parts : List Section}
    (hparts : IsVisit d parts) {s : Settings} (h : visit {} parts = .ok s) :
    FollowsValues (fun title key value => d.lookup title key = some value) s := by
  have hknown := isKnownTitle_of_visit h
  have hrows := isKnownTitle_of_mem_rows hknown
  have hkeys : ((rows parts).map Prod.fst).Nodup :=
    (hparts.perm_rows.map _).nodup_iff.2 (nodup_keys_rows hd)
  rw [visit_eq_foldlM {} hknown] at h
  have hverbosity := governs_verbosity.foldlM hkeys hrows h
  have hconsole := governs_console.foldlM hkeys hrows h
  have hlogFile := governs_logFile.foldlM hkeys hrows h
  have hresultsFile := governs_resultsFile.foldlM hkeys hrows h
  simp only [mem_rows_iff_lookup hd hparts] at hverbosity hconsole hlogFile hresultsFile
  exact
    { verbosity := hverbosity.1
      defaultVerbosity := hverbosity.2
      console := hconsole.1
      defaultConsole := hconsole.2
      logFile := hlogFile.1
      defaultLogFile := hlogFile.2
      resultsFile := hresultsFile.1
      defaultResultsFile := hresultsFile.2 }

/-- What can be said of all visits of the document that a text is read as. -/
structure IsOrderFree (text : String) (d : Document) : Prop where
  /-- The settings of the text are those of one visit. -/
  parse : IsVisit d d.sections ∧ Settings.parse text = visit {} d.sections
  /-- Two visits give the same settings, or fail both. -/
  agree : ∀ parts other, IsVisit d parts → IsVisit d other →
    (∃ s, visit {} parts = .ok s ∧ visit {} other = .ok s)
      ∨ ∃ fault fault', visit {} parts = .error fault ∧ visit {} other = .error fault'
  /-- A visit fails with a fault of the document, -/
  faults : ∀ parts fault, IsVisit d parts → visit {} parts = .error fault → AtFault d fault
  /-- so all fail with the same one if there is only one. -/
  sole : ∀ fault, (∀ other, AtFault d other ↔ other = fault) →
    ∀ parts, IsVisit d parts → visit {} parts = .error fault
  /-- A visit succeeds if the titles in the text are known, and the values that keys are
      last set to are valid. -/
  accepted : ∀ parts, IsVisit d parts → ((∃ s, visit {} parts = .ok s) ↔
    (∀ line ∈ Document.linesOf text, ∀ title, Line.IsTitle line title → IsKnownTitle title)
      ∧ ∀ title key value, Document.IsValue (Document.linesOf text) title key value →
        IsValid title key value)
  /-- The settings then follow these values, each that of its own key. -/
  settings : ∀ parts s, IsVisit d parts → visit {} parts = .ok s →
    FollowsValues (Document.IsValue (Document.linesOf text)) s

/-- The order in which a document is visited does not matter, and of the values that a
    key is set to, only the last does. -/
theorem visit_is_order_free {text : String} {d : Document} (h : Document.parse text = .ok d) :
    IsOrderFree text d := by
  rcases Document.records_of_parse h with ⟨last, hrecords⟩
  have hd := hrecords.isMap
  have hsections := hrecords.isSome_find?_iff
  have hvalues := hrecords.values
  have hfollows : ∀ parts s, IsVisit d parts → visit {} parts = .ok s →
      FollowsValues (Document.IsValue (Document.linesOf text)) s := by
    intro parts s hparts hs
    have hs := followsValues_of_visit hd hparts hs
    simpa only [hvalues] using hs
  have haccepted := fun parts (hparts : IsVisit d parts) => exists_visit_iff hd hparts
  exact
    { parse := by
        refine ⟨isVisit_sections d, ?_⟩
        rw [Settings.parse, h]
        rfl
      agree := by
        intro parts other hparts hother
        cases hvisit : visit {} parts with
        | ok s =>
            rcases (haccepted other hother).2 ((haccepted parts hparts).1 ⟨s, hvisit⟩) with
              ⟨s', hs'⟩
            have heq := (hfollows parts s hparts hvisit).unique (hfollows other s' hother hs')
            exact .inl ⟨s, rfl, heq ▸ hs'⟩
        | error fault =>
            cases hvisit' : visit {} other with
            | ok s =>
                rcases (haccepted parts hparts).2 ((haccepted other hother).1 ⟨s, hvisit'⟩) with
                  ⟨s', hs'⟩
                rw [hvisit] at hs'
                cases hs'
            | error fault' => exact .inr ⟨fault, fault', rfl, rfl⟩
      faults := fun parts fault hparts => atFault_of_visit hd hparts
      sole := by
        intro fault hsole parts hparts
        cases hvisit : visit {} parts with
        | ok s =>
            have hok := (haccepted parts hparts).1 ⟨s, hvisit⟩
            exact absurd hok.2 (((hsole fault).2 rfl).not_accepted hok.1)
        | error other => rw [(hsole other).1 (atFault_of_visit hd hparts hvisit)]
      accepted := by
        intro parts hparts
        rw [haccepted parts hparts]
        simp only [hsections, hvalues]
        refine and_congr_left fun _ => ?_
        constructor
        · intro hknown line hline title htitle
          exact hknown title ⟨line, hline, htitle⟩
        · rintro hknown title ⟨line, hline, htitle⟩
          exact hknown line hline title htitle
      settings := hfollows }

/-- A section that is opened again is continued, and an overwritten value does no harm. -/
theorem visit_is_order_free_reopened :
    Document.parse "logging\nlevel: loud\nresults\nlogging\nlevel: WARN\n"
        = .ok ⟨[⟨"logging", [("level", "WARN")]⟩, ⟨"results", []⟩]⟩
      ∧ IsOrderFree "logging\nlevel: loud\nresults\nlogging\nlevel: WARN\n"
        ⟨[⟨"logging", [("level", "WARN")]⟩, ⟨"results", []⟩]⟩ := by
  have h : Document.parse "logging\nlevel: loud\nresults\nlogging\nlevel: WARN\n"
      = .ok ⟨[⟨"logging", [("level", "WARN")]⟩, ⟨"results", []⟩]⟩ := by decide +kernel
  exact ⟨h, visit_is_order_free h⟩

end Settings

end PolyCalc
