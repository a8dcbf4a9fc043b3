import PolyCalc.Proofs.Expression.Rendering
import PolyCalc.Proofs.Poly.Products

/-!
# Texts Cut at a Sign

A sign stands at the start of a term and nowhere else. So a text may be cut in front of any
sign, and no term is cut by this: the terms of the text are those of its two parts, and each
part is a text of the grammar if the whole is. In the other direction, a sign ends whatever
stands before it, so the terms of two texts do not run into each other where the second one
starts with a sign. What is no text of the grammar does not become one by a neighbour either.

The part in front must not be empty, or else the sign is not cut off from anything. It may
be a sign alone, which is no text of the grammar, and then the whole is none.

Since terms are evaluated one after the other and accumulated in their order, the polynomial
of the whole is that of the front with the terms of the back accumulated onto it.

## Main definitions

* `isSign`: The two signs.

## Theorems

* `exists_chars_eq`: A term is its sign and a body without a sign.
* `exists_split_of_spelling`: No term is cut at a sign.
* `IsReading.append`, `IsReading.cut`: Readings of the parts and of the whole.
* `tokenize_append_eq_ok_iff`: What the whole is read as.
* `parseStripped_append_eq_ok_iff`: What the whole is.
* `parse_cut_at_sign`: The same of texts with blanks.
-/

namespace PolyCalc

namespace Expression

/-- The two signs. -/
def isSign (c : Char) : Bool := c == '+' || c == '-'

/-! ## Terms -/

theorem isSign_of_prolongsNumber {c : Char} (h : prolongsNumber c = true) : isSign c = false := by
  refine Bool.eq_false_iff.2 fun hsign => ?_
  simp only [isSign, Bool.or_eq_true, beq_iff_eq] at hsign
  rcases hsign with rfl | rfl
  · exact absurd h (by decide)
  · exact absurd h (by decide)

theorem isSign_of_mem_powerSpelling {exponent : Option (List Char)}
    (h : exponent = none ∨ ∃ digits, exponent = some digits ∧ IsDigits digits) :
    ∀ c ∈ powerSpelling exponent, isSign c = false := by
  intro c hc
  rcases List.mem_cons.1 hc with rfl | hc
  · rfl
  · rcases h with rfl | ⟨digits, rfl, hdigits⟩
    · cases hc
    · rcases List.mem_cons.1 hc with rfl | hc
      · rfl
      · exact isSign_of_prolongsNumber (prolongsNumber_of_isDigit (hdigits.2 c hc))

/-- A term of the grammar is its sign, if it has one, and a body without a sign. -/
theorem exists_chars_eq {r : RawTerm} (h : r.WellFormed) :
    ∃ first body, r.chars = r.sign.toList ++ first :: body
      ∧ ∀ c ∈ first :: body, isSign c = false := by
  rcases r with ⟨sign, shape, number, exponent⟩
  have hnumber {number : List Char} (h : IsUnsignedNumber number) :
      ∀ c ∈ number, isSign c = false :=
    fun c hc => isSign_of_prolongsNumber (prolongsNumber_of_isUnsignedNumber h c hc)
  cases shape with
  | scaled =>
      rcases h.coefficient with ⟨number, hsome, hunsigned⟩
      cases hsome
      rcases exists_cons_of_isUnsignedNumber hunsigned with ⟨first, body, rfl, -⟩
      refine ⟨first, body ++ powerSpelling exponent, chars_scaled sign _ exponent, ?_⟩
      rw [← List.cons_append]
      intro c hc
      rcases List.mem_append.1 hc with hc | hc
      · exact hnumber hunsigned c hc
      · exact isSign_of_mem_powerSpelling h.exponent c hc
  | constant =>
      rcases h.coefficient with ⟨number, hsome, hunsigned⟩
      cases hsome
      rcases exists_cons_of_isUnsignedNumber hunsigned with ⟨first, body, rfl, -⟩
      exact ⟨first, body, chars_constant sign _ exponent, hnumber hunsigned⟩
  | bare =>
      cases h.coefficient
      exact ⟨'x', _, chars_bare sign exponent, isSign_of_mem_powerSpelling h.exponent⟩

/-- Nowhere in a term but at its start stands a sign. -/
theorem isSign_of_chars_eq {r : RawTerm} (h : r.WellFormed) {front back : List Char} {c : Char}
    (hfront : front ≠ []) (hchars : r.chars = front ++ c :: back) : isSign c = false := by
  rcases exists_chars_eq h with ⟨first, body, hbody, hnone⟩
  rcases List.exists_cons_of_ne_nil hfront with ⟨d, front, rfl⟩
  refine hnone c ?_
  rw [hbody] at hchars
  cases hsign : r.sign with
  | none =>
      rw [hsign, Option.toList_none, List.nil_append] at hchars
      rw [hchars]
      simp
  | some sign =>
      rw [hsign, Option.toList_some, List.singleton_append, List.cons_append] at hchars
      rw [(List.cons.inj hchars).2]
      simp

/-- Terms that are spelled with a sign in front have one. -/
theorem sign_ne_none_of_spelling {r : RawTerm} {terms : List RawTerm} {t : List Char} {c : Char}
    (h : r.WellFormed) (hc : isSign c = true) (hspelled : spelling (r :: terms) = c :: t) :
    r.sign ≠ none := by
  intro hsign
  rcases exists_chars_eq h with ⟨first, body, hbody, hnone⟩
  rw [hsign, Option.toList_none, List.nil_append] at hbody
  rw [spelling, List.flatMap_cons, hbody, List.cons_append] at hspelled
  have hfirst := hnone first List.mem_cons_self
  rw [(List.cons.inj hspelled).1, hc] at hfirst
  cases hfirst

/-! ## Readings -/

/-- A cut in front of a sign cuts no term. The induction is on the terms, each of which
    lies in front of the cut as a whole, until the cut is reached. -/
theorem exists_split_of_spelling {terms : List RawTerm} {s t : List Char} {c : Char}
    (hwell : ∀ r ∈ terms, r.WellFormed) (hc : isSign c = true)
    (hspelled : spelling terms = s ++ c :: t) :
    ∃ front back, terms = front ++ back ∧ spelling front = s ∧ spelling back = c :: t := by
  induction terms generalizing s with
  | nil => simp [spelling] at hspelled
  | cons r terms ih =>
      by_cases hs : s = []
      · subst hs
        exact ⟨[], r :: terms, rfl, rfl, hspelled⟩
      have hr := hwell r List.mem_cons_self
      have hterms : ∀ u ∈ terms, u.WellFormed := fun u hu => hwell u (List.mem_cons_of_mem _ hu)
      have hcons (front : List RawTerm) : spelling (r :: front) = r.chars ++ spelling front :=
        List.flatMap_cons
      rw [hcons, List.append_eq_append_iff] at hspelled
      rcases hspelled with ⟨rest, rfl, hrest⟩ | ⟨rest, hchars, hrest⟩
      · -- The cut lies behind the term.
        rcases ih hterms hrest with ⟨front, back, rfl, hfront, hback⟩
        exact ⟨r :: front, back, rfl, by rw [hcons, hfront], hback⟩
      · cases rest with
        | nil =>
            rw [List.append_nil] at hchars
            exact ⟨[r], terms, rfl, by rw [hcons, hchars]; exact List.append_nil s, hrest.symm⟩
        | cons d rest =>
            -- The cut would lie within the term, in front of its second sign.
            cases hrest
            rw [isSign_of_chars_eq hr hs hchars] at hc
            cases hc

section Cut

variable {s t : List Char} {c : Char}

/-- Readings of two texts are one reading if the second text starts with a sign. -/
theorem IsReading.append {front back : List RawTerm} (hfront : IsReading front s)
    (hback : IsReading back (c :: t)) (hc : isSign c = true) :
    IsReading (front ++ back) (s ++ c :: t) := by
  constructor
  case nonempty => exact List.append_ne_nil_of_left_ne_nil hfront.nonempty back
  case wellFormed =>
    intro r hr
    rcases List.mem_append.1 hr with hr | hr
    · exact hfront.wellFormed r hr
    · exact hback.wellFormed r hr
  case signed =>
    rcases List.exists_cons_of_ne_nil hback.nonempty with ⟨u, back, rfl⟩
    have hu := sign_ne_none_of_spelling (hback.wellFormed u List.mem_cons_self) hc hback.spelled
    intro r hr
    rw [List.tail_append_of_ne_nil hfront.nonempty] at hr
    rcases List.mem_append.1 hr with hr | hr
    · exact hfront.signed r hr
    · rcases List.mem_cons.1 hr with rfl | hr
      · exact hu
      · exact hback.signed r hr
  case spelled => rw [spelling, List.flatMap_append, ← hfront.spelled, ← hback.spelled]; rfl

/-- A reading falls into two readings where a sign stands in its text. -/
theorem IsReading.cut {raw : List RawTerm} (h : IsReading raw (s ++ c :: t)) (hs : s ≠ [])
    (hc : isSign c = true) :
    ∃ front back, raw = front ++ back ∧ IsReading front s ∧ IsReading back (c :: t) := by
  rcases exists_split_of_spelling h.wellFormed hc h.spelled with ⟨front, back, rfl, hfront, hback⟩
  have hne : front ≠ [] := by
    rintro rfl
    exact hs hfront.symm
  have hsigned := h.signed
  rw [List.tail_append_of_ne_nil hne] at hsigned
  refine ⟨front, back, rfl, ?_, ?_⟩
  · constructor
    case nonempty => exact hne
    case wellFormed => exact fun r hr => h.wellFormed r (List.mem_append_left _ hr)
    case signed => exact fun r hr => hsigned r (List.mem_append_left _ hr)
    case spelled => exact hfront
  · constructor
    case nonempty =>
      rintro rfl
      cases hback
    case wellFormed => exact fun r hr => h.wellFormed r (List.mem_append_right _ hr)
    case signed => exact fun r hr => hsigned r (List.mem_append_right _ (List.mem_of_mem_tail hr))
    case spelled => exact hback

/-! ## Texts without blanks -/

/-- The whole is read as what its parts are read as, and not at all if one of them is
    not. -/
theorem tokenize_append_eq_ok_iff (hs : s ≠ []) (hc : isSign c = true) {raw : List RawTerm} :
    tokenize (s ++ c :: t) = .ok raw
      ↔ ∃ front back, tokenize s = .ok front ∧ tokenize (c :: t) = .ok back
        ∧ raw = front ++ back := by
  constructor
  · intro h
    rcases (isReading_of_tokenize h).cut hs hc with ⟨front, back, rfl, hfront, hback⟩
    exact ⟨front, back, tokenize_of_isReading hfront, tokenize_of_isReading hback, rfl⟩
  · rintro ⟨front, back, hfront, hback, rfl⟩
    exact tokenize_of_isReading
      ((isReading_of_tokenize hfront).append (isReading_of_tokenize hback) hc)

/-- The polynomial of the whole is that of the front, with the terms of the back
    accumulated onto it. -/
theorem parseStripped_append_eq_ok_iff (hs : s ≠ []) (hc : isSign c = true) {r : Poly Float} :
    parseStripped (s ++ c :: t) = .ok r
      ↔ ∃ p back terms, parseStripped s = .ok p ∧ tokenize (c :: t) = .ok back
        ∧ back.mapM RawTerm.value = .ok terms ∧ r = p.accumulateAll terms := by
  constructor
  · intro h
    rcases parseStripped_eq_ok_iff.1 h with ⟨raw, values, hread, hvalues, rfl⟩
    rcases (tokenize_append_eq_ok_iff hs hc).1 hread with ⟨front, back, hfront, hback, rfl⟩
    rcases mapM_append_eq_ok_iff.1 hvalues with ⟨first, terms, hfirst, hterms, rfl⟩
    exact ⟨Poly.ofTerms first, back, terms, parseStripped_of_values hfront hfirst, hback, hterms,
      List.foldl_append⟩
  · rintro ⟨p, back, terms, hp, hback, hterms, rfl⟩
    rcases parseStripped_eq_ok_iff.1 hp with ⟨front, first, hfront, hfirst, rfl⟩
    have hread := (tokenize_append_eq_ok_iff hs hc).2 ⟨front, back, hfront, hback, rfl⟩
    have hvalues := mapM_append_eq_ok_iff.2 ⟨first, terms, hfirst, hterms, rfl⟩
    rw [parseStripped_of_values hread hvalues]
    exact congrArg Except.ok List.foldl_append

end Cut

/-! ## Texts -/

/-- A text that starts with a sign, apart from blanks, without its blanks. -/
theorem exists_strip_eq_cons {t : List Char} {c : Char}
    (h : (t.find? fun c => !Text.isBlank c) = some c) : ∃ rest, Text.strip t = c :: rest := by
  rw [← List.head?_filter, List.head?_eq_some_iff] at h
  exact h

/-- A text that is not blank may be continued with a sign and what follows it, with blanks
    anywhere. The whole is a polynomial exactly if both parts are. It is read as what the
    parts are read as, one after the other. And the polynomial of the whole is that of the
    front with the term values of the back accumulated onto it in order: at each exponent
    they are added to the coefficient of the front, or to zero where it has none. -/
theorem parse_cut_at_sign (s t : String) (hs : ∃ c ∈ s.toList, Text.isBlank c = false)
    (ht : ∃ c, (t.toList.find? fun c => !Text.isBlank c) = some c ∧ (c = '+' ∨ c = '-')) :
    ((∃ r, parse (s ++ t) = .ok r) ↔ (∃ p, parse s = .ok p) ∧ ∃ q, parse t = .ok q)
    ∧ (∀ raw, tokenize (Text.strip (s ++ t).toList) = .ok raw
        ↔ ∃ front back, tokenize (Text.strip s.toList) = .ok front
          ∧ tokenize (Text.strip t.toList) = .ok back ∧ raw = front ++ back)
    ∧ ∀ p q, parse s = .ok p → parse t = .ok q →
        ∃ back terms r, tokenize (Text.strip t.toList) = .ok back
          ∧ back.mapM RawTerm.value = .ok terms ∧ q = Poly.ofTerms terms
          ∧ parse (s ++ t) = .ok r ∧ r = p.accumulateAll terms
          ∧ (∀ e, r.coefficient e
            = (Poly.coefficientsAt terms e).foldl (· + ·) (p.coefficient e))
          ∧ ∀ e, e ∈ r.exponents ↔ e ∈ p.exponents ∨ e ∈ q.exponents := by
  have hwhole : Text.strip (s ++ t).toList = Text.strip s.toList ++ Text.strip t.toList := by
    rw [String.toList_append, strip_append]
  have hfront : Text.strip s.toList ≠ [] := by
    rcases hs with ⟨c, hc, hblank⟩
    exact List.ne_nil_of_mem (List.mem_filter.2 ⟨hc, by rw [hblank, Bool.not_false]⟩)
  rcases ht with ⟨c, hfind, hsign⟩
  have hc : isSign c = true := by
    rcases hsign with rfl | rfl
    · rfl
    · rfl
  rcases exists_strip_eq_cons hfind with ⟨rest, hback⟩
  unfold parse
  rw [hwhole, hback]
  refine ⟨?_, fun raw => tokenize_append_eq_ok_iff hfront hc, ?_⟩
  · constructor
    · rintro ⟨r, hr⟩
      rcases (parseStripped_append_eq_ok_iff hfront hc).1 hr with
        ⟨p, back, terms, hp, hread, hvalues, -⟩
      exact ⟨⟨p, hp⟩, _, parseStripped_of_values hread hvalues⟩
    · rintro ⟨⟨p, hp⟩, q, hq⟩
      rcases parseStripped_eq_ok_iff.1 hq with ⟨back, terms, hread, hvalues, -⟩
      exact ⟨_, (parseStripped_append_eq_ok_iff hfront hc).2
        ⟨p, back, terms, hp, hread, hvalues, rfl⟩⟩
  · intro p q hp hq
    rcases parseStripped_eq_ok_iff.1 hq with ⟨back, terms, hread, hvalues, rfl⟩
    refine ⟨back, terms, _, hread, hvalues, rfl, (parseStripped_append_eq_ok_iff hfront hc).2
      ⟨p, back, terms, hp, hread, hvalues, rfl⟩, rfl, fun e => ?_, fun e => ?_⟩
    · exact Poly.coefficient_accumulateAll p terms e
    · have hempty : e ∉ (Poly.empty : Poly Float).exponents := List.not_mem_nil
      rw [Poly.ofTerms, Poly.mem_exponents_accumulateAll, Poly.mem_exponents_accumulateAll,
        or_iff_right hempty]

/-- A text with blanks in it and a point at its end, continued with a sign that has blanks
    on both sides. Neither the point nor the digits behind the sign join anything. -/
theorem parse_cut_at_sign_blanks :
    (∃ c ∈ (" 2 x ^ 2 +\t3." : String).toList, Text.isBlank c = false)
      ∧ (∃ c, ((" - .5x - 3 x^2" : String).toList.find? fun c => !Text.isBlank c) = some c
        ∧ (c = '+' ∨ c = '-'))
      ∧ ∃ r, parse (" 2 x ^ 2 +\t3." ++ " - .5x - 3 x^2") = .ok r
        ∧ ∀ e, e ∈ r.exponents ↔ e ∈ [0, 2] ∨ e ∈ [1, 2] := by
  have hs : ∃ c ∈ (" 2 x ^ 2 +\t3." : String).toList, Text.isBlank c = false :=
    ⟨'2', by decide, by decide⟩
  have ht : ∃ c, ((" - .5x - 3 x^2" : String).toList.find? fun c => !Text.isBlank c) = some c
      ∧ (c = '+' ∨ c = '-') :=
    ⟨'-', by decide, .inr rfl⟩
  have hp : parse " 2 x ^ 2 +\t3." = .ok (Poly.ofTerms [⟨2, 2⟩, ⟨0, 3⟩]) :=
    toOption_eq_some_iff.1 (by decide +kernel)
  have hq : parse " - .5x - 3 x^2" = .ok (Poly.ofTerms [⟨1, -0.5⟩, ⟨2, -3⟩]) :=
    toOption_eq_some_iff.1 (by decide +kernel)
  rcases (parse_cut_at_sign _ _ hs ht).2.2 _ _ hp hq with
    ⟨_, _, r, -, -, -, hr, -, -, hexponents⟩
  have hleft : (Poly.ofTerms [⟨2, 2⟩, ⟨0, 3⟩] : Poly Float).exponents = [0, 2] := by
    decide +kernel
  have hright : (Poly.ofTerms [⟨1, -0.5⟩, ⟨2, -3⟩] : Poly Float).exponents = [1, 2] := by
    decide +kernel
  rw [hleft, hright] at hexponents
  exact ⟨hs, ht, r, hr, hexponents⟩

end Expression

end PolyCalc
