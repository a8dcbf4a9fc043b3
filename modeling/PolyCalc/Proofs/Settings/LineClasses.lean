import PolyCalc.Settings.Document

/-!
# The Classes of Lines

A line of a settings document is ignored, a title, a key with its value, or none of
these. The function that tells the classes apart reads a line from its start and
decides on the way; here each class is described by the form of its lines, without an
order in which they are tried. The descriptions do not overlap, since a line has only
one class, and a line of which none of them is true has the class of the others.

The name at the start of a line ends at the first character that no name has, so a
name in front of a colon, or of spaces and a colon, is read back as it is. The spaces
behind the colon belong to the rest of the line, and blanks around that mean nothing.

## Main definitions

* `IsName`: The names of sections and keys.
* `IsIgnored`, `IsTitle`, `IsEntry`: The forms of lines.

## Theorems

* `readName_append`, `readName_sound`: Names are read back as they are.
* `classify_eq_ignored_iff`, `classify_eq_title_iff`, `classify_eq_entry_iff`: A line
  has a class exactly if it has the form.
* `classify_eq_invalid_iff`: The lines without a form.
-/

namespace PolyCalc

namespace Text

/-! ## Blanks at the start -/

/-- Blanks that were dropped before are not missed by trimming. -/
theorem trim_dropWhile {p : Char → Bool} (hp : ∀ c, p c = true → isBlank c = true)
    (s : List Char) : trim (s.dropWhile p) = trim s := by
  induction s with
  | nil => rfl
  | cons c s ih =>
      by_cases hc : p c = true
      · have hcons : trim (c :: s) = trim s := by
          simp only [trim, trimStart, List.dropWhile_cons_of_pos (hp c hc)]
        rw [List.dropWhile_cons_of_pos hc, ih, hcons]
      · rw [List.dropWhile_cons_of_neg hc]

end Text

namespace Line

/-- A name: a letter or an underscore, and then letters, digits and underscores. -/
def IsName (s : List Char) : Prop :=
  ∃ c rest, s = c :: rest ∧ isNameStart c = true ∧ ∀ d ∈ rest, isNameChar d = true

/-- A line that means nothing: it is empty or starts like a comment. -/
def IsIgnored (line : List Char) : Prop :=
  line = [] ∨ ['/', '/'] <+: line ∨ ['#'] <+: line ∨ ['%'] <+: line

/-- A line that is a title: it is a name. -/
def IsTitle (line : List Char) (title : String) : Prop :=
  IsName line ∧ line = title.toList

/-- A line that sets a key: the key, spaces or tabs, a colon, and the rest of the line,
    in which there is no carriage return. The value is the rest without the blanks
    around it. -/
def IsEntry (line : List Char) (key value : String) : Prop :=
  ∃ gap rest, IsName key.toList ∧ (∀ c ∈ gap, c = ' ' ∨ c = '\t') ∧ '\r' ∉ rest
    ∧ line = key.toList ++ gap ++ ':' :: rest ∧ value = String.ofList (Text.trim rest)

/-! ## Comments -/

theorem isComment_iff (line : List Char) : isComment line = true ↔ IsIgnored line := by
  unfold IsIgnored
  cases line with
  | nil => simp only [isComment, true_or]
  | cons c rest =>
      unfold isComment
      split
      · rename_i heq
        simp only [reduceCtorEq] at heq
      · rename_i heq
        simp only [List.cons.injEq] at heq
        simp only [heq.1, List.cons_prefix_cons, List.nil_prefix, and_true, true_or, or_true]
      · rename_i heq
        simp only [List.cons.injEq] at heq
        simp only [heq.1, List.cons_prefix_cons, List.nil_prefix, and_true, or_true]
      · rename_i heq
        simp only [List.cons.injEq] at heq
        simp only [heq.1, heq.2, List.cons_prefix_cons, List.nil_prefix, and_true, true_or,
          or_true]
      · -- None of the patterns matches, so the line starts with none of the marks.
        rename_i hhash hpercent hslash
        refine iff_of_false Bool.false_ne_true ?_
        rintro (heq | ⟨tail, htail⟩ | ⟨tail, htail⟩ | ⟨tail, htail⟩)
        · simp only [reduceCtorEq] at heq
        · exact hslash tail htail.symm
        · exact hhash tail htail.symm
        · exact hpercent tail htail.symm

/-- A line that starts with a name is no comment. -/
theorem isComment_name_append {name : List Char} (h : IsName name) (rest : List Char) :
    isComment (name ++ rest) = false := by
  rcases h with ⟨c, tail, rfl, hc, -⟩
  rw [Bool.eq_false_iff, ne_eq, isComment_iff, List.cons_append]
  -- No mark of a comment can start a name.
  have hmark : ∀ d : Char, isNameStart d = false → c ≠ d := by
    rintro d hd rfl
    simp only [hd, Bool.false_eq_true] at hc
  rintro (heq | hprefix | hprefix | hprefix)
  · simp only [reduceCtorEq] at heq
  · exact hmark '/' (by decide) (List.cons_prefix_cons.1 hprefix).1.symm
  · exact hmark '#' (by decide) (List.cons_prefix_cons.1 hprefix).1.symm
  · exact hmark '%' (by decide) (List.cons_prefix_cons.1 hprefix).1.symm

/-! ## Names -/

theorem IsName.of_readName {s name rest : List Char} (h : readName s = some (name, rest)) :
    s = name ++ rest ∧ IsName name := by
  cases s with
  | nil => simp only [readName, reduceCtorEq] at h
  | cons c s =>
      simp only [readName] at h
      by_cases hc : isNameStart c = true
      · simp only [if_pos hc, Option.some.injEq, Prod.mk.injEq] at h
        rcases h with ⟨rfl, rfl⟩
        refine ⟨?_, c, _, rfl, hc, ?_⟩
        · rw [List.cons_append, List.takeWhile_append_dropWhile]
        · intro d hd
          exact List.all_eq_true.1 List.all_takeWhile d hd
      · simp only [if_neg hc, reduceCtorEq] at h

/-- A name is read back if what follows cannot prolong it. -/
theorem readName_append {name rest : List Char} (h : IsName name)
    (hrest : ∀ c ∈ rest.head?, isNameChar c = false) :
    readName (name ++ rest) = some (name, rest) := by
  rcases h with ⟨c, tail, rfl, hc, htail⟩
  have hstop : rest.takeWhile isNameChar = [] ∧ rest.dropWhile isNameChar = rest := by
    cases rest with
    | nil => exact ⟨rfl, rfl⟩
    | cons d rest =>
        have hd : ¬isNameChar d = true := by
          simp only [hrest d rfl, Bool.false_eq_true, not_false_eq_true]
        exact ⟨List.takeWhile_cons_of_neg hd, List.dropWhile_cons_of_neg hd⟩
  rw [List.cons_append, readName, if_pos hc, List.takeWhile_append_of_pos htail,
    List.dropWhile_append_of_pos htail, hstop.1, hstop.2, List.append_nil]

/-! ## Spaces -/

/-- The spaces and tabs at the start of a text. -/
theorem exists_gap (s : List Char) :
    ∃ gap, (∀ c ∈ gap, c = ' ' ∨ c = '\t') ∧ s = gap ++ dropSpaces s := by
  refine ⟨s.takeWhile fun c => c = ' ' || c = '\t', ?_, ?_⟩
  · intro c hc
    have hall := List.all_eq_true.1 List.all_takeWhile c hc
    simpa only [Bool.or_eq_true, decide_eq_true_eq] using hall
  · rw [dropSpaces, List.takeWhile_append_dropWhile]

theorem dropSpaces_gap {gap : List Char} (h : ∀ c ∈ gap, c = ' ' ∨ c = '\t')
    (rest : List Char) : dropSpaces (gap ++ ':' :: rest) = ':' :: rest := by
  have hgap : ∀ c ∈ gap, (decide (c = ' ') || decide (c = '\t')) = true := by
    intro c hc
    simpa only [Bool.or_eq_true, decide_eq_true_eq] using h c hc
  rw [dropSpaces, List.dropWhile_append_of_pos hgap]
  exact List.dropWhile_cons_of_neg (by decide)

theorem trim_dropSpaces (s : List Char) : Text.trim (dropSpaces s) = Text.trim s := by
  refine Text.trim_dropWhile (fun c hc => ?_) s
  simp only [Bool.or_eq_true, decide_eq_true_eq] at hc
  rcases hc with rfl | rfl
  · decide
  · decide

/-- Spaces and tabs are no carriage returns. -/
theorem return_mem_dropSpaces_iff (s : List Char) : '\r' ∈ dropSpaces s ↔ '\r' ∈ s := by
  rcases exists_gap s with ⟨gap, hgap, hs⟩
  have hnot : '\r' ∉ gap := by
    intro hmem
    rcases hgap _ hmem with heq | heq
    · exact absurd heq (by decide)
    · exact absurd heq (by decide)
  conv => rhs; rw [hs]
  rw [List.mem_append, or_iff_right hnot]

/-! ## Classes -/

/-- What a class tells about the form of a line. -/
def HasForm (line : List Char) : Line → Prop
  | .ignored => IsIgnored line
  | .title name => IsTitle line name
  | .entry key value => IsEntry line key value
  | .invalid => True

/-- A line has the form that its class tells. -/
theorem hasForm_classify (line : List Char) : HasForm line (classify line) := by
  unfold classify
  by_cases hcomment : isComment line = true
  · rw [if_pos hcomment]
    exact (isComment_iff line).1 hcomment
  rw [if_neg hcomment]
  cases hread : readName line with
  | none => trivial
  | some result =>
      rcases result with ⟨name, rest⟩
      rcases IsName.of_readName hread with ⟨rfl, hname⟩
      cases rest with
      | nil =>
          refine ⟨?_, ?_⟩
          · rwa [List.append_nil]
          · rw [List.append_nil, String.toList_ofList]
      | cons c rest =>
          rcases exists_gap (c :: rest) with ⟨gap, hgap, hrest⟩
          simp only
          cases hdrop : dropSpaces (c :: rest) with
          | nil => trivial
          | cons colon after =>
              by_cases hcolon : colon = ':'
              · subst hcolon
                by_cases hreturn : (dropSpaces after).contains '\r' = true
                · simp only [hreturn, if_true]
                  trivial
                · simp only [hreturn, Bool.false_eq_true, if_false]
                  rw [List.contains_iff_mem, return_mem_dropSpaces_iff] at hreturn
                  refine ⟨gap, after, ?_, hgap, hreturn, ?_, ?_⟩
                  · rwa [String.toList_ofList]
                  · rw [String.toList_ofList, hrest, hdrop, List.append_assoc]
                  · rw [trim_dropSpaces]
              · split
                · rename_i heq
                  simp only [List.cons.injEq] at heq
                  exact absurd heq.1 hcolon
                · trivial

theorem classify_of_isTitle {line : List Char} {title : String} (h : IsTitle line title) :
    classify line = .title title := by
  have hread : readName (line ++ []) = some (line, []) := readName_append h.1 nofun
  have hcomment := isComment_name_append h.1 []
  rw [List.append_nil] at hread hcomment
  rw [classify, hcomment, if_neg Bool.false_ne_true, hread]
  simp only [h.2, String.ofList_toList]

theorem classify_of_isEntry {line : List Char} {key value : String}
    (h : IsEntry line key value) : classify line = .entry key value := by
  rcases h with ⟨gap, rest, hname, hgap, hreturn, rfl, rfl⟩
  have hdrop := dropSpaces_gap hgap rest
  -- What follows the key is a space, a tab or the colon, and none of them is in a name.
  have hread : readName (key.toList ++ gap ++ ':' :: rest)
      = some (key.toList, gap ++ ':' :: rest) := by
    rw [List.append_assoc]
    refine readName_append hname fun c hc => ?_
    cases gap with
    | nil =>
        simp only [List.nil_append, List.head?_cons, Option.mem_def, Option.some.injEq] at hc
        rw [← hc]
        decide
    | cons d gap =>
        simp only [List.cons_append, List.head?_cons, Option.mem_def, Option.some.injEq] at hc
        rcases hgap d List.mem_cons_self with hd | hd
        · rw [← hc, hd]
          decide
        · rw [← hc, hd]
          decide
  have hcomment : isComment (key.toList ++ gap ++ ':' :: rest) = false := by
    rw [List.append_assoc]
    exact isComment_name_append hname _
  have hnot : (dropSpaces rest).contains '\r' = false := by
    rw [Bool.eq_false_iff, ne_eq, List.contains_iff_mem, return_mem_dropSpaces_iff]
    exact hreturn
  rw [classify, hcomment, if_neg Bool.false_ne_true, hread]
  cases hbehind : gap ++ ':' :: rest with
  | nil => exact absurd hbehind (List.append_ne_nil_of_right_ne_nil _ (List.cons_ne_nil _ _))
  | cons c tail =>
      rw [hbehind] at hdrop
      simp only [hdrop, hnot, Bool.false_eq_true, if_false, String.ofList_toList,
        trim_dropSpaces]

theorem classify_eq_ignored_iff {line : List Char} :
    classify line = .ignored ↔ IsIgnored line := by
  constructor
  · intro h
    have hform := hasForm_classify line
    rwa [h] at hform
  · intro h
    rw [classify, if_pos ((isComment_iff line).2 h)]

theorem classify_eq_title_iff {line : List Char} {title : String} :
    classify line = .title title ↔ IsTitle line title := by
  refine ⟨fun h => ?_, classify_of_isTitle⟩
  have hform := hasForm_classify line
  rwa [h] at hform

theorem classify_eq_entry_iff {line : List Char} {key value : String} :
    classify line = .entry key value ↔ IsEntry line key value := by
  refine ⟨fun h => ?_, classify_of_isEntry⟩
  have hform := hasForm_classify line
  rwa [h] at hform

/-- The lines that are none of these. -/
theorem classify_eq_invalid_iff {line : List Char} :
    classify line = .invalid
      ↔ ¬IsIgnored line ∧ (∀ title, ¬IsTitle line title)
        ∧ ∀ key value, ¬IsEntry line key value := by
  simp only [← classify_eq_ignored_iff, ← classify_eq_title_iff, ← classify_eq_entry_iff]
  cases classify line <;> simp

end Line

end PolyCalc
