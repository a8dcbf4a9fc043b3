import PolyCalc.Poly.Text
import PolyCalc.Proofs.Binary64.Written
import PolyCalc.Proofs.Expression.Alphabet
import PolyCalc.Proofs.Expression.Values

/-!
# The Text of a Polynomial Is a Reading

A term with a finite coefficient is written as the grammar spells it. Which raw
term that is depends on what is written before it: a positive coefficient takes
a plus sign in every place but the first, a negative one brings its minus along,
and in both cases the sign belongs to the term while the blanks around it are
dropped. The alphabet of the grammar has no blank and no letter but `x`, so
nothing else is dropped.

A coefficient that is not finite is written with letters. Such a text is read as
nothing at all, whatever stands around the letters.

## Main definitions

* `rendered`: The raw term that the text of a term is read as.
* `renderedTerms`: The raw terms of the text of a polynomial.

## Theorems

* `chars_rendered`: The term is spelled as it is written.
* `denotes_rendered`: The spelling denotes the term.
* `tokenize_chars`: The text of a polynomial is read as its terms.
* `tokenize_chars_of_not_finite`: A coefficient that is not finite spoils the text.
-/

namespace PolyCalc

open Binary64

/-- The sign of a term, with the one that stands before a positive coefficient. -/
def signOf (plus : Option Char) (c : Float) : Option Char := if 0 < c then plus else some '-'

/-- The digits behind the caret, where an exponent is written with one. -/
def exponentDigits (e : Nat) : Option (List Char) :=
  if e ≤ 1 then none else some (Nat.toDigits 10 e)

/-- The raw term that the text of a term is read as, with the sign that stands
    before a positive coefficient. -/
def rendered (plus : Option Char) (t : Term Float) : RawTerm :=
  if t.exponent = 0 then
    ⟨signOf plus t.coefficient, .constant, some (decimalChars t.coefficient.abs), none⟩
  else if t.coefficient == 1 then
    ⟨signOf plus t.coefficient, .bare, none, exponentDigits t.exponent⟩
  else
    ⟨signOf plus t.coefficient, .scaled, some (decimalChars t.coefficient.abs),
      exponentDigits t.exponent⟩

/-- The raw terms that the terms of a text are read as. -/
def renderedTerms : List (Term Float) → List RawTerm
  | [] => []
  | first :: rest => rendered none first :: rest.map (rendered (some '+'))

namespace Expression

/-! ## Parts of a term -/

/-- The `x` of a written term is the one that the grammar spells. -/
theorem powerChars_eq {e : Nat} (h : e ≠ 0) :
    Term.powerChars e = powerSpelling (exponentDigits e) := by
  match e with
  | 0 => exact absurd rfl h
  | 1 => rfl
  | e + 2 =>
    have hdigits : exponentDigits (e + 2) = some (Nat.toDigits 10 (e + 2)) := if_neg (by omega)
    rw [hdigits]
    rfl

theorem isDigits_exponentDigits (e : Nat) :
    exponentDigits e = none ∨ ∃ digits, exponentDigits e = some digits ∧ IsDigits digits := by
  by_cases h : e ≤ 1
  · exact .inl (if_pos h)
  · exact .inr ⟨_, if_neg h, isDigits_toDigits e⟩

/-- A plus sign is not written where a coefficient is negative. -/
theorem toList_signOf {plus : Option Char} {c : Float} :
    (signOf plus c).toList
      = (if 0 < c then plus.toList else []) ++ if 0 < c then [] else ['-'] := by
  by_cases h : 0 < c
  · rw [signOf, if_pos h, if_pos h, if_pos h, List.append_nil]
  · rw [signOf, if_neg h, if_neg h, if_neg h]
    rfl

/-! ## Terms -/

/-- A term is written without the sign that joins it to the one before. -/
theorem chars_rendered {plus : Option Char} {t : Term Float} (h : HasParts t.coefficient) :
    (rendered plus t).chars = (if 0 < t.coefficient then plus.toList else []) ++ t.chars := by
  have hnumber := h.decimalChars_eq
  rw [rendered]
  split
  · rename_i he
    -- A constant is written with its number, also if that is one.
    have hunit : ¬(t.exponent ≠ 0 ∧ (t.coefficient == 1) = true) := fun hunit => hunit.1 he
    rw [chars_constant, toList_signOf, Term.chars, if_neg hunit, hnumber, he, Term.powerChars,
      List.append_nil, List.append_assoc]
  · rename_i he
    split
    · rename_i hone
      -- The coefficient one is positive, so leaving it out leaves out no minus.
      have hlt := zero_lt_of_beq_one hone
      have hwritten : t.chars = powerSpelling (exponentDigits t.exponent) :=
        (if_pos ⟨he, hone⟩).trans (powerChars_eq he)
      rw [chars_bare, toList_signOf, hwritten, if_pos hlt, if_pos hlt, List.append_nil]
    · rename_i hone
      have hunit : ¬(t.exponent ≠ 0 ∧ (t.coefficient == 1) = true) := fun hunit => hone hunit.2
      rw [chars_scaled, toList_signOf, Term.chars, if_neg hunit, hnumber, powerChars_eq he]
      simp only [List.append_assoc]

theorem wellFormed_rendered {plus : Option Char} {t : Term Float} (h : HasParts t.coefficient)
    (hplus : plus = none ∨ plus = some '+') : (rendered plus t).WellFormed := by
  have hnumber := h.isUnsignedNumber_decimalChars
  have hexponent := isDigits_exponentDigits t.exponent
  have hsign : signOf plus t.coefficient = none ∨ signOf plus t.coefficient = some '+'
      ∨ signOf plus t.coefficient = some '-' := by
    by_cases hlt : 0 < t.coefficient
    · rw [signOf, if_pos hlt]
      rcases hplus with hnone | hplus
      · exact .inl hnone
      · exact .inr (.inl hplus)
    · exact .inr (.inr (if_neg hlt))
  rw [rendered]
  split
  · exact ⟨hsign, ⟨_, rfl, hnumber⟩, rfl⟩
  · split
    · exact ⟨hsign, rfl, hexponent⟩
    · exact ⟨hsign, ⟨_, rfl, hnumber⟩, hexponent⟩

/-- An exponent is written with the digits of its value, if it has any. -/
theorem degree_exponentDigits {shape : TermShape} (hshape : shape ≠ .constant) {e : Nat}
    (he : e ≠ 0) (sign : Option Char) (number : Option (List Char)) :
    RawTerm.degree ⟨sign, shape, number, exponentDigits e⟩ = e := by
  by_cases hle : e ≤ 1
  · have hnone : exponentDigits e = none := if_pos hle
    have hone : e = 1 := by omega
    rw [hnone, hone]
    cases shape with
    | constant => exact absurd rfl hshape
    | scaled | bare => rfl
  · have hsome : exponentDigits e = some (Nat.toDigits 10 e) := if_neg hle
    rw [hsome]
    cases shape with
    | constant => exact absurd rfl hshape
    | scaled | bare => exact digitsValue_toDigits e

theorem degree_rendered (plus : Option Char) (t : Term Float) :
    (rendered plus t).degree = t.exponent := by
  rw [rendered]
  split
  · rename_i he
    exact he.symm
  · rename_i he
    split
    · exact degree_exponentDigits (by decide) he _ _
    · exact degree_exponentDigits (by decide) he _ _

/-- A number behind a sign has the value of the coefficient it was written from. -/
theorem coefficientValue_rendered {plus : Option Char} {t : Term Float}
    (h : HasParts t.coefficient) (hplus : plus = none ∨ plus = some '+') :
    (rendered plus t).coefficientValue = .ok t.coefficient := by
  have hread := h.readNumber_decimalChars
  have hplus : plus ≠ some '-' := by
    rcases hplus with rfl | rfl
    · decide
    · decide
  -- The sign of the text turns the magnitude into the coefficient again.
  have hsigned : (if signOf plus t.coefficient = some '-' then -t.coefficient.abs
      else t.coefficient.abs) = t.coefficient := by
    by_cases hlt : 0 < t.coefficient
    · rw [signOf, if_pos hlt, if_neg hplus, h.abs_eq_self hlt]
    · rw [signOf, if_neg hlt, if_pos rfl, h.neg_abs_eq_self hlt]
  have hnumber (shape : TermShape) (exponent : Option (List Char)) :
      RawTerm.coefficientValue ⟨signOf plus t.coefficient, shape,
        some (decimalChars t.coefficient.abs), exponent⟩ = .ok t.coefficient := by
    simp only [RawTerm.coefficientValue, hread]
    exact congrArg Except.ok hsigned
  rw [rendered]
  split
  · exact hnumber _ _
  · split
    · rename_i hone
      have hlt := zero_lt_of_beq_one hone
      have hsign : signOf plus t.coefficient = plus := if_pos hlt
      rw [RawTerm.coefficientValue, hsign, eq_one_of_beq_one hone]
      exact congrArg Except.ok (if_neg hplus)
    · exact hnumber _ _

/-- The spelling of a term denotes the term. -/
theorem denotes_rendered {plus : Option Char} {t : Term Float} (h : HasParts t.coefficient)
    (hplus : plus = none ∨ plus = some '+') : (rendered plus t).Denotes t :=
  ⟨wellFormed_rendered h hplus, coefficientValue_rendered h hplus, degree_rendered plus t⟩

/-! ## Texts -/

theorem strip_append (s t : List Char) : Text.strip (s ++ t) = Text.strip s ++ Text.strip t :=
  List.filter_append s t

theorem strip_chars {t : Term Float} (h : HasParts t.coefficient) :
    Text.strip t.chars = t.chars := by
  have hspelled : (rendered none t).chars = t.chars := by
    rw [chars_rendered h, Option.toList_none, ite_self, List.nil_append]
  refine List.filter_eq_self.2 fun c hc => ?_
  rw [← hspelled] at hc
  rw [isBlank_of_inAlphabet (inAlphabet_of_mem_chars (wellFormed_rendered h (.inl rfl)) c hc),
    Bool.not_false]

/-- Of a separator the plus sign is left. -/
theorem strip_separator (t : Term Float) :
    Text.strip t.separator = if 0 < t.coefficient then ['+'] else [] := by
  unfold Term.separator
  split
  · rfl
  · rfl

theorem strip_separator_append {t : Term Float} (h : HasParts t.coefficient) :
    Text.strip (t.separator ++ t.chars) = (rendered (some '+') t).chars := by
  rw [strip_append, strip_separator, strip_chars h, chars_rendered h]
  rfl

/-- Without its blanks the text of a polynomial is spelled by its terms. -/
theorem spelling_renderedTerms {p : Poly Float} (hwritten : p.writtenTerms ≠ [])
    (h : ∀ t ∈ p.writtenTerms, HasParts t.coefficient) :
    spelling (renderedTerms p.writtenTerms) = Text.strip p.chars := by
  unfold Poly.chars
  cases hterms : p.writtenTerms with
  | nil => exact absurd hterms hwritten
  | cons first rest =>
      rw [hterms] at h
      -- No sign joins the first term to anything.
      have hfirst : (rendered none first).chars = first.chars := by
        rw [chars_rendered (h first List.mem_cons_self), Option.toList_none, ite_self,
          List.nil_append]
      -- Of each later term the plus sign of its separator becomes a part.
      have hrest : Text.strip (rest.flatMap fun t => t.separator ++ t.chars)
          = rest.flatMap fun t => (rendered (some '+') t).chars := by
        rw [Text.strip, List.filter_flatMap]
        refine List.flatMap_congr fun t ht => ?_
        exact strip_separator_append (h t (List.mem_cons_of_mem _ ht))
      simp only [strip_append, strip_chars (h first List.mem_cons_self), hrest]
      rw [renderedTerms, spelling, List.flatMap_cons, hfirst, List.flatMap_map]

theorem denotes_renderedTerms {terms : List (Term Float)}
    (h : ∀ t ∈ terms, HasParts t.coefficient) :
    List.Forall₂ RawTerm.Denotes (renderedTerms terms) terms := by
  cases terms with
  | nil => exact List.Forall₂.nil
  | cons first rest =>
      refine List.Forall₂.cons (denotes_rendered (h first List.mem_cons_self) (.inl rfl)) ?_
      rw [List.forall₂_map_left_iff, List.forall₂_same]
      intro t ht
      exact denotes_rendered (h t (List.mem_cons_of_mem _ ht)) (.inr rfl)

theorem wellFormed_renderedTerms {terms : List (Term Float)}
    (h : ∀ t ∈ terms, HasParts t.coefficient) :
    ∀ r ∈ renderedTerms terms, r.WellFormed := by
  intro r hr
  cases terms with
  | nil => cases hr
  | cons first rest =>
      rcases List.mem_cons.1 hr with rfl | hr
      · exact wellFormed_rendered (h first List.mem_cons_self) (.inl rfl)
      · rcases List.mem_map.1 hr with ⟨t, ht, rfl⟩
        exact wellFormed_rendered (h t (List.mem_cons_of_mem _ ht)) (.inr rfl)

theorem sign_rendered {plus : Option Char} (hplus : plus ≠ none) (t : Term Float) :
    (rendered plus t).sign ≠ none := by
  have hsign : signOf plus t.coefficient ≠ none := by
    unfold signOf
    split
    · exact hplus
    · exact Option.some_ne_none '-'
  unfold rendered
  split
  · exact hsign
  · split
    · exact hsign
    · exact hsign

/-- Every term but the first has a sign, a plus or its own minus. -/
theorem signed_renderedTerms (terms : List (Term Float)) :
    ∀ r ∈ (renderedTerms terms).tail, r.sign ≠ none := by
  intro r hr
  cases terms with
  | nil => cases hr
  | cons first rest =>
      rcases List.mem_map.1 hr with ⟨t, -, rfl⟩
      exact sign_rendered (Option.some_ne_none '+') t

theorem renderedTerms_ne_nil {terms : List (Term Float)} (h : terms ≠ []) :
    renderedTerms terms ≠ [] := by
  cases terms with
  | nil => exact absurd rfl h
  | cons first rest => exact List.cons_ne_nil _ _

/-- The text of a polynomial with finite coefficients is read as its terms. -/
theorem tokenize_chars {p : Poly Float} (hwritten : p.writtenTerms ≠ [])
    (h : ∀ t ∈ p.writtenTerms, HasParts t.coefficient) :
    tokenize (Text.strip p.chars) = .ok (renderedTerms p.writtenTerms) :=
  tokenize_of_isReading
    { nonempty := renderedTerms_ne_nil hwritten
      wellFormed := wellFormed_renderedTerms h
      signed := signed_renderedTerms p.writtenTerms
      spelled := spelling_renderedTerms hwritten h }

/-! ## Letters -/

/-- A coefficient that is not finite is written, and with letters. -/
theorem letter_mem_chars {t : Term Float} (h : t.coefficient.isFinite = false) :
    'n' ∈ t.chars ∨ 'N' ∈ t.chars := by
  have hunit : ¬(t.exponent ≠ 0 ∧ (t.coefficient == 1) = true) := by
    rintro ⟨-, hone⟩
    rw [eq_one_of_beq_one hone] at h
    exact absurd h (by decide)
  rw [Term.chars, if_neg hunit]
  rcases letter_mem_decimalChars h with hmem | hmem
  · exact .inl (List.mem_append_left _ hmem)
  · exact .inr (List.mem_append_left _ hmem)

theorem mem_chars_of_mem_writtenTerms {p : Poly Float} {t : Term Float} {c : Char}
    (ht : t ∈ p.writtenTerms) (hc : c ∈ t.chars) : c ∈ p.chars := by
  unfold Poly.chars
  cases hterms : p.writtenTerms with
  | nil =>
      rw [hterms] at ht
      cases ht
  | cons first rest =>
      rw [hterms] at ht
      rcases List.mem_cons.1 ht with rfl | ht
      · exact List.mem_append_left _ hc
      · refine List.mem_append_right _ (List.mem_flatMap.2 ⟨t, ht, ?_⟩)
        exact List.mem_append_right _ hc

/-- A written coefficient that is not finite makes the text unreadable. -/
theorem tokenize_chars_of_not_finite {p : Poly Float} {t : Term Float}
    (ht : t ∈ p.writtenTerms) (h : t.coefficient.isFinite = false) :
    ∃ fault, tokenize (Text.strip p.chars) = .error fault := by
  cases hread : tokenize (Text.strip p.chars) with
  | error fault => exact ⟨fault, rfl⟩
  | ok raw =>
      -- The letter is left in the text without its blanks, and it is not of the grammar.
      have hletter {c : Char} (hc : c ∈ t.chars) (hblank : Text.isBlank c = false) :
          inAlphabet c = true := by
        refine inAlphabet_of_tokenize hread c (List.mem_filter.2 ⟨?_, ?_⟩)
        · exact mem_chars_of_mem_writtenTerms ht hc
        · rw [hblank, Bool.not_false]
      rcases letter_mem_chars h with hc | hc
      · exact absurd (hletter hc (by decide)) (by decide)
      · exact absurd (hletter hc (by decide)) (by decide)

end Expression

end PolyCalc
