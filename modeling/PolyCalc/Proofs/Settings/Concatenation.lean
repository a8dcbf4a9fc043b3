import PolyCalc.Proofs.Fallible
import PolyCalc.Proofs.Settings.Sections
import PolyCalc.Proofs.Text.Lines

/-!
# One Document behind Another

A text that is put behind another one, with a line break between them, is read from the map
and in the section that the other one has left. Its own reading starts from an empty map and in
no section. The two readings of it go through the same lines, so they can be compared line by
line.

The first one has made the union of what was there before and of what the second one has made.
Their sections may differ as long as the second reading is in none. But a key would then be a
fault in the second reading, and a title puts both readings in the same section. So if the text
can be read on its own, each key is set in the same section by both.

No carriage return needs attention at the break, since a line is trimmed before it is read.

## Main definitions

* `IsUnion`: The union of two maps, with the values of the second one first.
* `Joins`: What two readings of the same lines have made of them.
* `readLine`: What one line does to the map and the section.

## Theorems

* `readLine_cases`: What a line can do.
* `readLines_append_of_ok`, `readLines_append_of_error`: The first of two texts decides how
  the second one is read, and whether it is.
* `Joins.openSection`, `Joins.assign`, `Joins.readLine`: A line keeps what was made a union.
* `readLines_of_joins`: So do all lines.
* `parse_append_newline`: The document of two texts is the union of theirs.
-/

namespace PolyCalc

namespace Document

/-- The union of two maps, in which the second one decides about the keys that both have. -/
structure IsUnion (d e f : Document) : Prop where
  isMap : f.IsMap
  sections : ∀ title, (f.find? title).isSome ↔ (d.find? title).isSome ∨ (e.find? title).isSome
  values : ∀ title key, f.lookup title key = (e.lookup title key).or (d.lookup title key)

/-- Two readings of the same lines, one of which started from an empty map and the other one from
    the map `d`. They have made `e` and `f`, and are in the sections `own` and `current`. -/
structure Joins (d e f : Document) (own current : Option String) : Prop where
  isUnion : IsUnion d e f
  /-- The reading of the lines alone may be in no section. -/
  agree : own = none ∨ own = current
  opened : ∀ title, own = some title → (e.find? title).isSome

/-! ## Lines -/

variable {number : Nat} {d e f : Document} {own current : Option String}
  {line : List Char} {lines rest : List (List Char)}

/-- The map and the current section behind a line. -/
def readLine (number : Nat) (d : Document) (current : Option String) (line : List Char) :
    Except SettingsFault (Document × Option String) :=
  match Line.classify (Text.trim line) with
  | .ignored => .ok (d, current)
  | .title title => .ok (d.openSection title, some title)
  | .entry key value =>
    match current with
    | none => .error (.keyOutsideSection number key)
    | some title => .ok (d.assign title key value, some title)
  | .invalid => .error (.invalidLine number (String.ofList (Text.trim line)))

theorem readLines_cons (number : Nat) (d : Document) (current : Option String) (line : List Char)
    (rest : List (List Char)) :
    readLines number d current (line :: rest)
      = readLine number d current line >>= fun s => readLines (number + 1) s.1 s.2 rest := by
  rw [readLines, readLine]
  cases Line.classify (Text.trim line) with
  | ignored | title | invalid => rfl
  | entry key value => cases current <;> rfl

/-- What a line can do to the map and the section. -/
theorem readLine_cases {s : Document × Option String}
    (h : readLine number d current line = .ok s) :
    (Line.classify (Text.trim line) = .ignored ∧ s = (d, current))
      ∨ (∃ title, Line.classify (Text.trim line) = .title title
        ∧ s = (d.openSection title, some title))
      ∨ ∃ title key value, Line.classify (Text.trim line) = .entry key value
        ∧ current = some title ∧ s = (d.assign title key value, some title) := by
  unfold readLine at h
  cases hline : Line.classify (Text.trim line) with
  | ignored =>
      rw [hline] at h
      exact .inl ⟨rfl, (Except.ok.inj h).symm⟩
  | title title =>
      rw [hline] at h
      exact .inr (.inl ⟨title, rfl, (Except.ok.inj h).symm⟩)
  | entry key value =>
      rw [hline] at h
      cases current with
      | none => cases h
      | some title => exact .inr (.inr ⟨title, key, value, rfl, rfl, (Except.ok.inj h).symm⟩)
  | invalid =>
      rw [hline] at h
      cases h

/-! ## The first text -/

theorem isMap_of_readLines (hd : d.IsMap) (h : readLines number d current lines = .ok e) :
    e.IsMap := by
  induction lines generalizing number d current with
  | nil =>
      cases h
      exact hd
  | cons line lines ih =>
      rw [readLines_cons] at h
      obtain ⟨s, hs, h⟩ := exists_of_bind_eq_ok h
      rcases readLine_cases hs with ⟨-, rfl⟩ | ⟨title, -, rfl⟩ | ⟨title, key, value, -, -, rfl⟩
      · exact ih hd h
      · exact ih (hd.openSection title) h
      · exact ih (hd.assign title key value) h

/-- Lines that can be read are left with a map and in a section, from which the lines behind
    them are read. -/
theorem readLines_append_of_ok (h : readLines number d current lines = .ok e) :
    ∃ last, ∀ rest, readLines number d current (lines ++ rest)
      = readLines (number + lines.length) e last rest := by
  induction lines generalizing number d current with
  | nil =>
      cases h
      exact ⟨current, fun _ => rfl⟩
  | cons line lines ih =>
      rw [readLines_cons] at h
      obtain ⟨s, hs, h⟩ := exists_of_bind_eq_ok h
      obtain ⟨last, hlast⟩ := ih h
      refine ⟨last, fun rest => ?_⟩
      have hnumber : number + (line :: lines).length = number + 1 + lines.length := by
        rw [List.length_cons]
        omega
      rw [List.cons_append, readLines_cons, hs, hnumber, ← hlast rest]
      rfl

/-- Nothing behind a fault is read. -/
theorem readLines_append_of_error {fault : SettingsFault}
    (h : readLines number d current lines = .error fault) :
    readLines number d current (lines ++ rest) = .error fault := by
  induction lines generalizing number d current with
  | nil => cases h
  | cons line lines ih =>
      rw [readLines_cons] at h
      rw [List.cons_append, readLines_cons, bind_eq_error_iff]
      rcases bind_eq_error_iff.1 h with hfault | ⟨s, hs, hfault⟩
      · exact .inl hfault
      · exact .inr ⟨s, hs, ih hfault⟩

/-! ## The second text -/

/-- At the break the reading of the second text alone has nothing and is in no section. -/
theorem joins_empty (hd : d.IsMap) (current : Option String) : Joins d ⟨[]⟩ d none current where
  isUnion :=
    { isMap := hd
      sections := fun _ => (or_iff_left Bool.false_ne_true).symm
      values := fun _ _ => Option.none_or.symm }
  agree := .inl rfl
  opened := nofun

/-- A title puts both readings in its section. -/
theorem Joins.openSection (h : Joins d e f own current) (title : String) :
    Joins d (e.openSection title) (f.openSection title) (some title) (some title) where
  isUnion :=
    { isMap := h.isUnion.isMap.openSection title
      sections := by
        intro u
        rw [isSome_find?_openSection, isSome_find?_openSection, h.isUnion.sections]
        exact or_left_comm
      values := by
        intro u key
        rw [lookup_openSection, lookup_openSection, h.isUnion.values] }
  agree := .inr rfl
  opened := by
    intro u hu
    cases hu
    rw [isSome_find?_openSection]
    exact .inl rfl

/-- A key is set in the same section by both readings. -/
theorem Joins.assign {title : String} (h : Joins d e f (some title) current) (key value : String) :
    current = some title
      ∧ Joins d (e.assign title key value) (f.assign title key value) (some title)
        (some title) := by
  have hcurrent : current = some title := (h.agree.resolve_left nofun).symm
  have hown : (e.find? title).isSome := h.opened title rfl
  have hboth : (f.find? title).isSome := (h.isUnion.sections title).2 (.inr hown)
  refine ⟨hcurrent, ⟨⟨h.isUnion.isMap.assign title key value, ?_, ?_⟩, .inr rfl, ?_⟩⟩
  · intro u
    rw [isSome_find?_assign, isSome_find?_assign, h.isUnion.sections]
  · intro u k
    rw [lookup_assign hboth, lookup_assign hown, h.isUnion.values]
    by_cases hset : u = title ∧ k = key
    · rw [if_pos hset, if_pos hset, Option.some_or]
    · rw [if_neg hset, if_neg hset]
  · intro u hu
    cases hu
    rw [isSome_find?_assign]
    exact hown

/-- A line that can be read alone can be read behind others. -/
theorem Joins.readLine {s : Document × Option String} (h : Joins d e f own current)
    (hs : Document.readLine number e own line = .ok s) (number' : Nat) :
    ∃ t, Document.readLine number' f current line = .ok t ∧ Joins d s.1 t.1 s.2 t.2 := by
  rcases readLine_cases hs with
    ⟨hline, rfl⟩ | ⟨title, hline, rfl⟩ | ⟨title, key, value, hline, rfl, rfl⟩
  · refine ⟨(f, current), ?_, h⟩
    rw [Document.readLine, hline]
  · refine ⟨(f.openSection title, some title), ?_, h.openSection title⟩
    rw [Document.readLine, hline]
  · obtain ⟨rfl, hjoins⟩ := h.assign key value
    refine ⟨(f.assign title key value, some title), ?_, hjoins⟩
    rw [Document.readLine, hline]

/-- All lines can then be read behind others, and what is made of them there is the union. -/
theorem readLines_of_joins {number' : Nat} (h : Joins d e f own current) {e' : Document}
    (he : readLines number e own lines = .ok e') :
    ∃ f', readLines number' f current lines = .ok f' ∧ IsUnion d e' f' := by
  induction lines generalizing number number' e f own current with
  | nil =>
      cases he
      exact ⟨f, rfl, h.isUnion⟩
  | cons line lines ih =>
      rw [readLines_cons] at he
      obtain ⟨s, hs, he⟩ := exists_of_bind_eq_ok he
      obtain ⟨t, ht, hjoins⟩ := h.readLine hs number'
      rw [readLines_cons, ht]
      exact ih hjoins he

/-! ## Texts -/

theorem parse_append_eq (a b : String) :
    parse (a ++ "\n" ++ b)
      = readLines 1 ⟨[]⟩ none (Text.pieces '\n' a.toList ++ Text.pieces '\n' b.toList) := by
  have hbreak : "\n".toList = ['\n'] := rfl
  rw [parse, String.toList_append, String.toList_append, hbreak, List.append_assoc,
    List.singleton_append, Text.pieces_append_cons]

/-- Two texts with a line break between them are read if each of them can be, and then the
    document has their sections and keys, with the values of the second text where both set the
    same key of the same section. A fault of the first text is the fault of both, whatever the
    second one is. -/
theorem parse_append_newline (a b : String) :
    (∀ d e, parse a = .ok d → parse b = .ok e →
        ∃ f, parse (a ++ "\n" ++ b) = .ok f ∧ IsUnion d e f)
      ∧ ∀ fault, parse a = .error fault → parse (a ++ "\n" ++ b) = .error fault := by
  rw [parse_append_eq]
  refine ⟨fun d e ha hb => ?_, fun fault ha => readLines_append_of_error ha⟩
  obtain ⟨last, hrest⟩ := readLines_append_of_ok ha
  rw [hrest]
  exact readLines_of_joins (joins_empty (isMap_of_readLines isMap_empty ha) last) hb

/-- The second text opens a section again, behind a carriage return, and sets one of its two keys
    to another value. -/
theorem parse_append_newline_reopened :
    ∃ f, parse ("logging\r\nlevel: debug\r\nfile: a\r" ++ "\n" ++ "# more\nlogging\nlevel: off")
        = .ok f ∧ IsUnion ⟨[⟨"logging", [("level", "debug"), ("file", "a")]⟩]⟩
          ⟨[⟨"logging", [("level", "off")]⟩]⟩ f :=
  (parse_append_newline _ _).1 _ _ (by decide +kernel) (by decide +kernel)

end Document

end PolyCalc
