import PolyCalc.Proofs.Settings.LineClasses
import PolyCalc.Proofs.Settings.Sections
import PolyCalc.Proofs.Text.Lines

/-!
# What a Document Says

What a settings document says is described here line by line, without reading it in any
order: the sections are the titles, a key belongs to the nearest title before it, and it
has the value that it is last set to there. A document is refused for its first line
that has no form, or that sets a key before any title.

Reading goes through the lines once and carries two things along, the map made so far
and the section that keys are set in. `Records` says how both describe the lines that
were read. A line more changes the description and the map in the same way, which is
the step lemma for each class of lines, and a line that the reader stops at is an
offence, with none before it. What holds of a whole text follows by induction over the
lines that are still to be read.

A section that is opened again needs no case of its own. Its title is the nearest one
for the keys below, and opening it changes no value.

## Main definitions

* `linesOf`: The lines of a text as they are read.
* `IsLast`: What stands at a position and at none behind it.
* `InSection`: The nearest title before a line.
* `IsValue`: The value that a key of a section is last set to.
* `OffenceAt`: A line that a document is refused for.
* `Records`: A map and a current section that describe lines.
* `IsMeaning`: What is made of a text.

## Theorems

* `inSection_concat`, `isValue_concat`: What one line more changes.
* `records_of_ignored`, `records_of_title`, `records_of_entry`: Reading a line keeps the
  description true.
* `readLines_of_records`: Reading all lines.
* `records_of_parse`, `isFirstOffence_of_parse`: How far a text is read.
* `parse_means_document`: What is made of a text is what it says.
-/

namespace PolyCalc

namespace Text

/-- A line without the carriage return that belongs to the break behind it. -/
def withoutReturn (line : List Char) : List Char :=
  if line.getLast? = some '\r' then line.dropLast else line

/-- A blank at the end is not missed by trimming. -/
theorem trim_concat {c : Char} (hc : isBlank c = true) (s : List Char) :
    trim (s ++ [c]) = trim s := by
  have hlast : [c].dropWhile isBlank = [] := List.dropWhile_cons_of_pos hc
  have hend : ∀ t : List Char, trimEnd (t ++ [c]) = trimEnd t := by
    intro t
    simp only [trimEnd, trimStart, List.reverse_append, List.reverse_singleton,
      List.singleton_append, List.dropWhile_cons_of_pos hc]
  rw [trim, trimStart, List.dropWhile_append, hlast]
  by_cases hs : (s.dropWhile isBlank).isEmpty = true
  · rw [if_pos hs, trim, trimStart, List.isEmpty_iff.1 hs]
  · rw [if_neg hs, hend, trim, trimStart]

theorem trim_withoutReturn (line : List Char) : trim (withoutReturn line) = trim line := by
  unfold withoutReturn
  by_cases hlast : line.getLast? = some '\r'
  · rw [if_pos hlast]
    rcases List.getLast?_eq_some_iff.1 hlast with ⟨front, rfl⟩
    rw [List.dropLast_concat, trim_concat (by decide)]
  · rw [if_neg hlast]

end Text

namespace Document

/-! ## Lines and their sections -/

/-- The lines of a text as they are read, without the blanks at their ends. A line ends
    with a line feed, or with a carriage return and a line feed. -/
def linesOf (text : String) : List (List Char) :=
  (Text.lines text.toList).map fun line => Text.trim (Text.withoutReturn line)

/-- Something stands at a position, and nothing stands behind it. -/
def IsLast {α : Type} (stands : Nat → α → Prop) (x : α) : Prop :=
  ∃ n, stands n x ∧ ∀ m y, n < m → ¬stands m y

/-- A title stands in line `n`, counted from zero. -/
def TitleAt (lines : List (List Char)) (n : Nat) (title : String) : Prop :=
  ∃ line, lines[n]? = some line ∧ Line.IsTitle line title

/-- A title is the nearest one before line `n`. -/
def InSection (lines : List (List Char)) (n : Nat) (title : String) : Prop :=
  IsLast (fun m t => m < n ∧ TitleAt lines m t) title

/-- Line `n` sets a key of a section to a value. -/
def SetsAt (lines : List (List Char)) (title key : String) (n : Nat) (value : String) : Prop :=
  ∃ line, lines[n]? = some line ∧ Line.IsEntry line key value ∧ InSection lines n title

/-- A key of a section is last set to a value. -/
def IsValue (lines : List (List Char)) (title key value : String) : Prop :=
  IsLast (SetsAt lines title key) value

/-- A document is refused for line `n`: it has no form, or it sets a key and no title
    stands before it. The fault has the number of the line, counted from one. -/
inductive OffenceAt (lines : List (List Char)) (n : Nat) : SettingsFault → Prop where
  | invalid (line : List Char) (hline : lines[n]? = some line)
      (hignored : ¬Line.IsIgnored line) (htitle : ∀ title, ¬Line.IsTitle line title)
      (hentry : ∀ key value, ¬Line.IsEntry line key value) :
      OffenceAt lines n (.invalidLine (n + 1) (String.ofList line))
  | outside (line : List Char) (key value : String) (hline : lines[n]? = some line)
      (hentry : Line.IsEntry line key value)
      (htitles : ∀ m title, m < n → ¬TitleAt lines m title) :
      OffenceAt lines n (.keyOutsideSection (n + 1) key)

/-! ## Positions -/

section

variable {α : Type}

/-- What stands at one position more is the last, and if nothing stands there, the last
    one is that of before. -/
theorem isLast_succ {after : Nat → α → Prop} (before : Nat → α → Prop) (n : Nat)
    (hsame : ∀ m x, m < n → (after m x ↔ before m x)) (hbefore : ∀ m x, before m x → m < n)
    (hafter : ∀ m x, after m x → m ≤ n) (x : α) :
    IsLast after x ↔ after n x ∨ (∀ y, ¬after n y) ∧ IsLast before x := by
  constructor
  · rintro ⟨m, hm, hlast⟩
    by_cases hmn : m = n
    · exact .inl (hmn ▸ hm)
    · have hlt : m < n := by
        have := hafter m x hm
        omega
      refine .inr ⟨fun y => hlast n y hlt, m, (hsame m x hlt).1 hm, ?_⟩
      intro k y hk hy
      exact hlast k y hk ((hsame k y (hbefore k y hy)).2 hy)
  · rintro (hn | ⟨hnone, m, hm, hlast⟩)
    · refine ⟨n, hn, fun k y hk hy => ?_⟩
      have := hafter k y hy
      omega
    · have hlt := hbefore m x hm
      refine ⟨m, (hsame m x hlt).2 hm, fun k y hk hy => ?_⟩
      by_cases hkn : k = n
      · exact hnone y (hkn ▸ hy)
      · have hklt : k < n := by
          have := hafter k y hy
          omega
        exact hlast k y hk ((hsame k y hklt).1 hy)

theorem isLast_congr {stands other : Nat → α → Prop} (h : ∀ m x, stands m x ↔ other m x)
    (x : α) : IsLast stands x ↔ IsLast other x := by
  simp only [IsLast, h]

end

variable {earlier rest lines : List (List Char)} {line : List Char} {n : Nat}

theorem titleAt_append (hn : n < earlier.length) (title : String) :
    TitleAt (earlier ++ rest) n title ↔ TitleAt earlier n title := by
  unfold TitleAt
  rw [List.getElem?_append_left hn]

theorem titleAt_concat (title : String) :
    TitleAt (earlier ++ [line]) earlier.length title ↔ Line.IsTitle line title := by
  unfold TitleAt
  simp only [List.getElem?_concat_length, Option.some.injEq, exists_eq_left']

theorem TitleAt.lt_length {title : String} (h : TitleAt lines n title) : n < lines.length := by
  rcases h with ⟨line, hline, -⟩
  exact (List.getElem?_eq_some_iff.1 hline).1

/-- The nearest title before a line does not depend on what follows. -/
theorem inSection_append (hn : n ≤ earlier.length) (title : String) :
    InSection (earlier ++ rest) n title ↔ InSection earlier n title := by
  refine isLast_congr (fun m t => ?_) title
  refine and_congr_right fun hm => ?_
  rw [titleAt_append (Nat.lt_of_lt_of_le hm hn)]

/-- Behind a title the keys are in its section, and behind any other line in the one
    that was current before. -/
theorem inSection_concat (title : String) :
    InSection (earlier ++ [line]) (earlier.length + 1) title
      ↔ Line.IsTitle line title
        ∨ (∀ t, ¬Line.IsTitle line t) ∧ InSection earlier earlier.length title := by
  unfold InSection
  rw [isLast_succ (fun m t => m < earlier.length ∧ TitleAt earlier m t) earlier.length]
  · simp only [titleAt_concat, Nat.lt_succ_self, true_and]
  · intro m t hm
    simp only [titleAt_append hm, hm, Nat.lt_succ_of_lt hm, true_and]
  · intro m t h
    exact h.1
  · intro m t h
    exact Nat.le_of_lt_succ h.1

theorem setsAt_append (hn : n < earlier.length) (title key value : String) :
    SetsAt (earlier ++ rest) title key n value ↔ SetsAt earlier title key n value := by
  unfold SetsAt
  simp only [List.getElem?_append_left hn, inSection_append (Nat.le_of_lt hn)]

theorem setsAt_concat (title key value : String) :
    SetsAt (earlier ++ [line]) title key earlier.length value
      ↔ Line.IsEntry line key value ∧ InSection earlier earlier.length title := by
  unfold SetsAt
  simp only [List.getElem?_concat_length, Option.some.injEq, exists_eq_left',
    inSection_append (Nat.le_refl _)]

theorem SetsAt.lt_length {title key value : String} (h : SetsAt lines title key n value) :
    n < lines.length := by
  rcases h with ⟨line, hline, -⟩
  exact (List.getElem?_eq_some_iff.1 hline).1

/-- One line more gives a value if it sets the key in the current section, and leaves
    all others. -/
theorem isValue_concat (title key value : String) :
    IsValue (earlier ++ [line]) title key value
      ↔ (Line.IsEntry line key value ∧ InSection earlier earlier.length title)
        ∨ (∀ v, ¬(Line.IsEntry line key v ∧ InSection earlier earlier.length title))
          ∧ IsValue earlier title key value := by
  unfold IsValue
  rw [isLast_succ (SetsAt earlier title key) earlier.length]
  · simp only [setsAt_concat]
  · intro m v hm
    exact setsAt_append hm title key v
  · intro m v h
    exact h.lt_length
  · intro m v h
    have := h.lt_length
    rw [List.length_append, List.length_singleton] at this
    omega

theorem offenceAt_append (hn : n < earlier.length) (fault : SettingsFault) :
    OffenceAt (earlier ++ rest) n fault ↔ OffenceAt earlier n fault := by
  have hline : (earlier ++ rest)[n]? = earlier[n]? := List.getElem?_append_left hn
  have htitle : ∀ m title, m < n →
      (TitleAt (earlier ++ rest) m title ↔ TitleAt earlier m title) := by
    intro m title hm
    exact titleAt_append (Nat.lt_trans hm hn) title
  constructor
  · intro h
    cases h with
    | invalid line h hignored htitles hentry =>
        exact .invalid line (hline ▸ h) hignored htitles hentry
    | outside line key value h hentry htitles =>
        refine .outside line key value (hline ▸ h) hentry fun m t hm => ?_
        exact mt (htitle m t hm).2 (htitles m t hm)
  · intro h
    cases h with
    | invalid line h hignored htitles hentry =>
        exact .invalid line (hline.trans h) hignored htitles hentry
    | outside line key value h hentry htitles =>
        refine .outside line key value (hline.trans h) hentry fun m t hm => ?_
        exact mt (htitle m t hm).1 (htitles m t hm)

/-! ## Reading -/

/-- A map and a current section say what the lines read so far say. -/
structure Records (earlier : List (List Char)) (d : Document) (current : Option String) :
    Prop where
  isMap : d.IsMap
  /-- Keys are set in the section of the nearest title. -/
  inSection : ∀ title, current = some title ↔ InSection earlier earlier.length title
  /-- There is none only before the first title. -/
  opened : current = none → ∀ n title, ¬TitleAt earlier n title
  sections : ∀ title, (d.find? title).isSome ↔ ∃ n, TitleAt earlier n title
  values : ∀ title key value, d.lookup title key = some value ↔ IsValue earlier title key value
  /-- The document was not refused. -/
  accepted : ∀ n fault, ¬OffenceAt earlier n fault

theorem records_nil : Records [] ⟨[]⟩ none where
  isMap := isMap_empty
  inSection := by
    intro title
    refine iff_of_false nofun ?_
    rintro ⟨n, ⟨hn, -⟩, -⟩
    exact Nat.not_lt_zero n hn
  opened := by
    rintro - n title ⟨line, hline, -⟩
    cases hline
  sections := by
    intro title
    refine iff_of_false nofun ?_
    rintro ⟨n, line, hline, -⟩
    cases hline
  values := by
    intro title key value
    refine iff_of_false nofun ?_
    rintro ⟨n, ⟨line, hline, -⟩, -⟩
    cases hline
  accepted := by
    intro n fault h
    cases h with
    | invalid line hline => cases hline
    | outside line key value hline => cases hline

/-- The titles are those of before and that of the line. -/
theorem exists_titleAt_concat (title : String) :
    (∃ n, TitleAt (earlier ++ [line]) n title)
      ↔ Line.IsTitle line title ∨ ∃ n, TitleAt earlier n title := by
  constructor
  · rintro ⟨n, h⟩
    have hlt := h.lt_length
    rw [List.length_append, List.length_singleton] at hlt
    by_cases hn : n = earlier.length
    · exact .inl ((titleAt_concat title).1 (hn ▸ h))
    · exact .inr ⟨n, (titleAt_append (by omega) title).1 h⟩
  · rintro (h | ⟨n, h⟩)
    · exact ⟨earlier.length, (titleAt_concat title).2 h⟩
    · exact ⟨n, (titleAt_append h.lt_length title).2 h⟩

/-- A line more that is no offence lets a document be accepted still. -/
theorem accepted_concat (h : ∀ n fault, ¬OffenceAt earlier n fault)
    (hline : ∀ fault, ¬OffenceAt (earlier ++ [line]) earlier.length fault) (n : Nat)
    (fault : SettingsFault) : ¬OffenceAt (earlier ++ [line]) n fault := by
  intro hfault
  have hlt : n < (earlier ++ [line]).length := by
    cases hfault with
    | invalid line hline => exact (List.getElem?_eq_some_iff.1 hline).1
    | outside line key value hline => exact (List.getElem?_eq_some_iff.1 hline).1
  rw [List.length_append, List.length_singleton] at hlt
  by_cases hn : n = earlier.length
  · exact hline fault (hn ▸ hfault)
  · exact h n fault ((offenceAt_append (by omega) fault).1 hfault)

variable {d : Document} {current : Option String}

/-- A line that is ignored says nothing. -/
theorem records_of_ignored (h : Records earlier d current)
    (hline : Line.classify line = .ignored) : Records (earlier ++ [line]) d current := by
  have htitle : ∀ title, ¬Line.IsTitle line title := by
    intro title
    simp only [← Line.classify_eq_title_iff, hline, reduceCtorEq, not_false_eq_true]
  have hentry : ∀ key value, ¬Line.IsEntry line key value := by
    intro key value
    simp only [← Line.classify_eq_entry_iff, hline, reduceCtorEq, not_false_eq_true]
  exact
    { isMap := h.isMap
      inSection := by
        intro title
        rw [List.length_append, List.length_singleton, inSection_concat, h.inSection]
        simp only [htitle, false_or, not_false_eq_true, implies_true, true_and]
      opened := by
        intro hnone n title hn
        rcases (exists_titleAt_concat title).1 ⟨n, hn⟩ with hnew | ⟨m, hm⟩
        · exact htitle title hnew
        · exact h.opened hnone m title hm
      sections := by
        intro title
        rw [h.sections, exists_titleAt_concat, or_iff_right (htitle title)]
      values := by
        intro title key value
        rw [h.values, isValue_concat]
        simp only [hentry, false_and, not_false_eq_true, implies_true, true_and, false_or]
      accepted := by
        refine accepted_concat h.accepted fun fault hfault => ?_
        cases hfault with
        | invalid other hother hignored =>
            rw [List.getElem?_concat_length, Option.some.injEq] at hother
            exact hignored (hother ▸ Line.classify_eq_ignored_iff.1 hline)
        | outside other key value hother hkey =>
            rw [List.getElem?_concat_length, Option.some.injEq] at hother
            exact hentry key value (hother ▸ hkey) }

/-- A title opens its section. -/
theorem records_of_title (h : Records earlier d current) {title : String}
    (hline : Line.classify line = .title title) :
    Records (earlier ++ [line]) (d.openSection title) (some title) := by
  have htitle : ∀ t, Line.IsTitle line t ↔ title = t := by
    intro t
    simp only [← Line.classify_eq_title_iff, hline, Line.title.injEq]
  have hentry : ∀ key value, ¬Line.IsEntry line key value := by
    intro key value
    simp only [← Line.classify_eq_entry_iff, hline, reduceCtorEq, not_false_eq_true]
  exact
    { isMap := h.isMap.openSection title
      inSection := by
        intro t
        rw [List.length_append, List.length_singleton, inSection_concat, htitle,
          Option.some.injEq]
        -- The new title is the nearest one, whatever was current before.
        have hnot : ¬∀ u, ¬Line.IsTitle line u := fun hall => hall title ((htitle title).2 rfl)
        simp only [hnot, false_and, or_false]
      opened := nofun
      sections := by
        intro t
        rw [isSome_find?_openSection, h.sections, exists_titleAt_concat, htitle,
          eq_comm (a := t)]
      values := by
        intro t key value
        rw [lookup_openSection, h.values, isValue_concat]
        simp only [hentry, false_and, not_false_eq_true, implies_true, true_and, false_or]
      accepted := by
        refine accepted_concat h.accepted fun fault hfault => ?_
        cases hfault with
        | invalid other hother _ hnone =>
            rw [List.getElem?_concat_length, Option.some.injEq] at hother
            exact hnone title (hother ▸ (htitle title).2 rfl)
        | outside other key value hother hkey =>
            rw [List.getElem?_concat_length, Option.some.injEq] at hother
            exact hentry key value (hother ▸ hkey) }

/-- A key is set in the current section. -/
theorem records_of_entry {title key value : String} (h : Records earlier d (some title))
    (hline : Line.classify line = .entry key value) :
    Records (earlier ++ [line]) (d.assign title key value) (some title) := by
  have htitle : ∀ t, ¬Line.IsTitle line t := by
    intro t
    simp only [← Line.classify_eq_title_iff, hline, reduceCtorEq, not_false_eq_true]
  have hentry : ∀ k v, Line.IsEntry line k v ↔ key = k ∧ value = v := by
    intro k v
    simp only [← Line.classify_eq_entry_iff, hline, Line.entry.injEq]
  have hsection : ∀ t, InSection earlier earlier.length t ↔ title = t := by
    intro t
    rw [← h.inSection, Option.some.injEq]
  -- The section is there, since its title was read.
  have hopen : (d.find? title).isSome := by
    rcases (hsection title).2 rfl with ⟨n, ⟨-, hn⟩, -⟩
    exact (h.sections title).2 ⟨n, hn⟩
  exact
    { isMap := h.isMap.assign title key value
      inSection := by
        intro t
        rw [List.length_append, List.length_singleton, inSection_concat, h.inSection]
        simp only [htitle, false_or, not_false_eq_true, implies_true, true_and]
      opened := nofun
      sections := by
        intro t
        rw [isSome_find?_assign, h.sections, exists_titleAt_concat, or_iff_right (htitle t)]
      values := by
        intro t k v
        rw [lookup_assign hopen, isValue_concat]
        simp only [hentry, hsection]
        by_cases hset : t = title ∧ k = key
        · rcases hset with ⟨rfl, rfl⟩
          simp
        · rw [if_neg hset, h.values]
          have hnot : ¬(key = k ∧ title = t) := fun hboth => hset ⟨hboth.2.symm, hboth.1.symm⟩
          grind
      accepted := by
        refine accepted_concat h.accepted fun fault hfault => ?_
        cases hfault with
        | invalid other hother _ _ hnone =>
            rw [List.getElem?_concat_length, Option.some.injEq] at hother
            exact hnone key value (hother ▸ (hentry key value).2 ⟨rfl, rfl⟩)
        | outside other k v hother _ hnone =>
            rcases (hsection title).2 rfl with ⟨n, ⟨hn, ht⟩, -⟩
            exact hnone n title hn ((titleAt_append hn title).2 ht) }

/-! ## Reading all lines -/

/-- A document is refused with the fault of its first offence. -/
def IsFirstOffence (lines : List (List Char)) (fault : SettingsFault) : Prop :=
  ∃ n, OffenceAt lines n fault ∧ ∀ m other, m < n → ¬OffenceAt lines m other

theorem OffenceAt.unique {fault other : SettingsFault} (h : OffenceAt lines n fault)
    (hother : OffenceAt lines n other) : fault = other := by
  cases h with
  | invalid line hline _ _ hentry =>
      cases hother with
      | invalid line' hline' =>
          rw [hline, Option.some.injEq] at hline'
          rw [hline']
      | outside line' key value hline' hentry' =>
          rw [hline, Option.some.injEq] at hline'
          exact absurd (hline' ▸ hentry') (hentry key value)
  | outside line key value hline hentry _ =>
      cases hother with
      | invalid line' hline' _ _ hentry' =>
          rw [hline, Option.some.injEq] at hline'
          exact absurd (hline' ▸ hentry) (hentry' key value)
      | outside line' key' value' hline' hentry' =>
          rw [hline, Option.some.injEq] at hline'
          -- One line sets one key.
          rw [← Line.classify_eq_entry_iff] at hentry hentry'
          rw [← hline', hentry, Line.entry.injEq] at hentry'
          rw [hentry'.1]

theorem IsFirstOffence.unique {fault other : SettingsFault} (h : IsFirstOffence lines fault)
    (hother : IsFirstOffence lines other) : fault = other := by
  rcases h with ⟨n, hn, hfirst⟩
  rcases hother with ⟨m, hm, hfirst'⟩
  rcases Nat.lt_trichotomy n m with hlt | heq | hgt
  · exact absurd hn (hfirst' n fault hlt)
  · exact hn.unique (heq ▸ hm)
  · exact absurd hm (hfirst m other hgt)

/-- The reader stops at the first offence. -/
theorem Records.isFirstOffence (h : Records earlier d current) {fault : SettingsFault}
    (hfault : OffenceAt (earlier ++ [line]) earlier.length fault) :
    IsFirstOffence (earlier ++ line :: rest) fault := by
  have hlength : earlier.length < (earlier ++ [line]).length := by
    rw [List.length_append, List.length_singleton]
    omega
  rw [List.append_cons]
  refine ⟨earlier.length, (offenceAt_append hlength fault).2 hfault, fun m other hm hother => ?_⟩
  rw [offenceAt_append (by omega), offenceAt_append hm] at hother
  exact h.accepted m other hother

/-- Reading the remaining lines gives a map that says what all lines say, or stops at
    the first offence. -/
theorem readLines_of_records (h : Records earlier d current) :
    (∀ final, readLines (earlier.length + 1) d current rest = .ok final →
        ∃ last, Records (earlier ++ rest.map Text.trim) final last)
      ∧ ∀ fault, readLines (earlier.length + 1) d current rest = .error fault →
        IsFirstOffence (earlier ++ rest.map Text.trim) fault := by
  induction rest generalizing earlier d current with
  | nil =>
      refine ⟨fun final hfinal => ⟨current, ?_⟩, nofun⟩
      cases hfinal
      rw [List.map_nil, List.append_nil]
      exact h
  | cons line rest ih =>
      have hnext : ∀ {d' current'}, Records (earlier ++ [Text.trim line]) d' current' →
          (∀ final, readLines (earlier.length + 1 + 1) d' current' rest = .ok final →
              ∃ last, Records (earlier ++ Text.trim line :: rest.map Text.trim) final last)
            ∧ ∀ fault, readLines (earlier.length + 1 + 1) d' current' rest = .error fault →
              IsFirstOffence (earlier ++ Text.trim line :: rest.map Text.trim) fault := by
        intro d' current' hrecords
        have hread := ih hrecords
        rwa [List.length_append, List.length_singleton, ← List.append_cons] at hread
      have hat : (earlier ++ [Text.trim line])[earlier.length]? = some (Text.trim line) :=
        List.getElem?_concat_length
      rw [List.map_cons, readLines]
      cases hline : Line.classify (Text.trim line) with
      | ignored => exact hnext (records_of_ignored h hline)
      | title title => exact hnext (records_of_title h hline)
      | entry key value =>
          cases current with
          | some title => exact hnext (records_of_entry h hline)
          | none =>
              refine ⟨nofun, fun fault hfault => ?_⟩
              cases hfault
              refine h.isFirstOffence (.outside _ key value hat ?_ fun m t hm ht => ?_)
              · exact Line.classify_eq_entry_iff.1 hline
              · exact h.opened rfl m t ((titleAt_append hm t).1 ht)
      | invalid =>
          refine ⟨nofun, fun fault hfault => ?_⟩
          cases hfault
          rcases Line.classify_eq_invalid_iff.1 hline with ⟨hignored, htitle, hentry⟩
          exact h.isFirstOffence (.invalid _ hat hignored htitle hentry)

/-- An empty line behind all others changes nothing. -/
theorem readLines_concat_nil (number : Nat) (d : Document) (current : Option String)
    (lines : List (List Char)) :
    readLines number d current (lines ++ [[]]) = readLines number d current lines := by
  induction lines generalizing number d current with
  | nil => rfl
  | cons line lines ih =>
      rw [List.cons_append, readLines, readLines]
      cases Line.classify (Text.trim line) with
      | ignored => exact ih _ _ _
      | title title => exact ih _ _ _
      | entry key value =>
          cases current with
          | none => rfl
          | some title => exact ih _ _ _
      | invalid => rfl

/-- A text is read by its lines. -/
theorem parse_eq_readLines (text : String) :
    parse text = readLines 1 ⟨[]⟩ none (Text.lines text.toList) := by
  unfold parse
  by_cases hend : Text.EndsLine text.toList
  · have hpieces := Text.pieces_append hend []
    rw [List.append_nil] at hpieces
    rw [hpieces]
    exact readLines_concat_nil 1 ⟨[]⟩ none _
  · rw [Text.lines, if_neg hend]

theorem linesOf_eq (text : String) : linesOf text = (Text.lines text.toList).map Text.trim := by
  unfold linesOf
  simp only [Text.trim_withoutReturn]

/-- A text that is accepted is read to its last line, -/
theorem records_of_parse {text : String} {d : Document} (h : parse text = .ok d) :
    ∃ last, Records (linesOf text) d last := by
  have hread := (@readLines_of_records [] (Text.lines text.toList) _ _ records_nil).1 d
  rw [List.nil_append, ← linesOf_eq, List.length_nil, Nat.zero_add, ← parse_eq_readLines] at hread
  exact hread h

/-- and one that is refused, to its first offence. -/
theorem isFirstOffence_of_parse {text : String} {fault : SettingsFault}
    (h : parse text = .error fault) : IsFirstOffence (linesOf text) fault := by
  have hread := (@readLines_of_records [] (Text.lines text.toList) _ _ records_nil).2 fault
  rw [List.nil_append, ← linesOf_eq, List.length_nil, Nat.zero_add, ← parse_eq_readLines] at hread
  exact hread h

/-! ## The meaning -/

/-- What is made of lines is what they say. -/
structure IsMeaning (lines : List (List Char)) (answer : Except SettingsFault Document) :
    Prop where
  /-- A document is accepted if each line has a form, and each key a title before it. -/
  accepted : (∃ d, answer = .ok d) ↔
    (∀ line ∈ lines, Line.IsIgnored line ∨ (∃ title, Line.IsTitle line title)
        ∨ ∃ key value, Line.IsEntry line key value)
      ∧ ∀ n line key value, lines[n]? = some line → Line.IsEntry line key value →
        ∃ m title, m < n ∧ TitleAt lines m title
  /-- It is a map -/
  isMap : ∀ d, answer = .ok d → d.IsMap
  /-- from the titles, -/
  sections : ∀ d, answer = .ok d → ∀ title,
    ((d.find? title).isSome ↔ ∃ line ∈ lines, Line.IsTitle line title)
  /-- with the values that keys are last set to. -/
  values : ∀ d, answer = .ok d → ∀ title key value,
    (d.lookup title key = some value ↔ IsValue lines title key value)
  /-- It is refused for its first offence. -/
  refused : ∀ fault, answer = .error fault ↔ IsFirstOffence lines fault

/-- No line is an offence if each has a form, and each key a title before it. -/
theorem forall_not_offenceAt_iff :
    (∀ n fault, ¬OffenceAt lines n fault) ↔
      (∀ line ∈ lines, Line.IsIgnored line ∨ (∃ title, Line.IsTitle line title)
          ∨ ∃ key value, Line.IsEntry line key value)
        ∧ ∀ n line key value, lines[n]? = some line → Line.IsEntry line key value →
          ∃ m title, m < n ∧ TitleAt lines m title := by
  constructor
  · intro h
    refine ⟨fun line hline => ?_, fun n line key value hline hentry => ?_⟩
    · rcases List.mem_iff_getElem?.1 hline with ⟨n, hn⟩
      by_contra hnone
      simp only [not_or, not_exists] at hnone
      exact h n _ (.invalid line hn hnone.1 hnone.2.1 hnone.2.2)
    · by_contra hnone
      simp only [not_exists, not_and] at hnone
      exact h n _ (.outside line key value hline hentry hnone)
  · rintro ⟨hforms, htitles⟩ n fault hfault
    cases hfault with
    | invalid line hline hignored htitle hentry =>
        rcases hforms line (List.mem_of_getElem? hline) with h | ⟨title, h⟩ | ⟨key, value, h⟩
        · exact hignored h
        · exact htitle title h
        · exact hentry key value h
    | outside line key value hline hentry hnone =>
        rcases htitles n line key value hline hentry with ⟨m, title, hm, ht⟩
        exact hnone m title hm ht

theorem exists_titleAt_iff (title : String) :
    (∃ n, TitleAt lines n title) ↔ ∃ line ∈ lines, Line.IsTitle line title := by
  simp only [TitleAt, List.mem_iff_getElem?]
  constructor
  · rintro ⟨n, line, hline, htitle⟩
    exact ⟨line, ⟨n, hline⟩, htitle⟩
  · rintro ⟨line, ⟨n, hline⟩, htitle⟩
    exact ⟨n, line, hline, htitle⟩

theorem Records.isSome_find?_iff {lines : List (List Char)} {d : Document}
    {last : Option String} (h : Records lines d last) (title : String) :
    (d.find? title).isSome ↔ ∃ line ∈ lines, Line.IsTitle line title := by
  rw [h.sections, exists_titleAt_iff]

/-- What is made of a text is what it says. -/
theorem parse_means_document (text : String) : IsMeaning (linesOf text) (parse text) where
  accepted := by
    rw [← forall_not_offenceAt_iff]
    constructor
    · rintro ⟨d, hd⟩
      rcases records_of_parse hd with ⟨last, hrecords⟩
      exact hrecords.accepted
    · intro hnone
      cases hparse : parse text with
      | ok d => exact ⟨d, rfl⟩
      | error fault =>
          rcases isFirstOffence_of_parse hparse with ⟨n, hn, -⟩
          exact absurd hn (hnone n fault)
  isMap := by
    intro d hd
    rcases records_of_parse hd with ⟨last, hrecords⟩
    exact hrecords.isMap
  sections := by
    intro d hd
    rcases records_of_parse hd with ⟨last, hrecords⟩
    exact hrecords.isSome_find?_iff
  values := by
    intro d hd
    rcases records_of_parse hd with ⟨last, hrecords⟩
    exact hrecords.values
  refused := by
    refine fun fault => ⟨isFirstOffence_of_parse, fun hfirst => ?_⟩
    cases hparse : parse text with
    | ok d =>
        rcases records_of_parse hparse with ⟨last, hrecords⟩
        rcases hfirst with ⟨n, hn, -⟩
        exact absurd hn (hrecords.accepted n fault)
    | error other => rw [hfirst.unique (isFirstOffence_of_parse hparse)]

end Document

end PolyCalc
