import PolyCalc.Proofs.Expression.Values
import PolyCalc.Proofs.Poly.Rearrangement

/-!
# Moving a Written Term

A term of a text takes its sign along when it moves. Only the first term of a text may go
without a sign, so a term that leaves the first place is given a plus, and one that reaches it
may drop its plus. Two texts are therefore compared with all signs written out, which changes
the value of no term.

A term beyond the limit has no value, wherever it stands. So a text has a value before the move
exactly if it has one after it. The polynomial is then that of the terms, and terms of different
exponents may pass each other.

## Main definitions

* `RawTerm.signed`: A term with its sign written out.
* `MovesTerm`: A term has passed terms of other exponents.

## Theorems

* `value_signed`: Writing the plus out changes nothing.
* `degree_of_value`: The exponent of a value is the written one.
* `exists_values_moved_iff`: The value of a list of terms survives the move.
* `parse_moved_iff`: So does the value of a text.
* `terms_pass_other_exponents`: What the order of terms does not change.
-/

namespace PolyCalc

/-- A term with its sign written out. -/
def RawTerm.signed (r : RawTerm) : RawTerm := { r with sign := some (r.sign.getD '+') }

namespace Expression

/-- One of the terms has moved past terms that are written with other exponents. Read backwards,
    it has moved the other way. -/
def MovesTerm (raw moved : List RawTerm) : Prop :=
  ∃ front r passed back, (∀ u ∈ passed, u.degree ≠ r.degree)
    ∧ raw.map RawTerm.signed = front ++ r :: passed ++ back
    ∧ moved.map RawTerm.signed = front ++ passed ++ r :: back

/-! ## Signs -/

theorem value_signed (r : RawTerm) : r.signed.value = r.value := by
  have hminus : r.signed.sign = some '-' ↔ r.sign = some '-' := by
    cases hsign : r.sign with
    | none => simp [RawTerm.signed, hsign]
    | some c => simp [RawTerm.signed, hsign]
  have hcoefficient : r.signed.coefficientValue = r.coefficientValue := by
    simp only [RawTerm.coefficientValue, hminus]
    rfl
  have hexponent : r.signed.exponentValue = r.exponentValue := rfl
  rw [RawTerm.value, RawTerm.value, hcoefficient, hexponent]

theorem wellFormed_signed {r : RawTerm} (h : r.WellFormed) : r.signed.WellFormed where
  sign := by
    rcases h.sign with hsign | hsign | hsign <;> simp [RawTerm.signed, hsign]
  coefficient := h.coefficient
  exponent := h.exponent

theorem mapM_value_signed (raw : List RawTerm) :
    (raw.map RawTerm.signed).mapM RawTerm.value = raw.mapM RawTerm.value := by
  have hvalue : RawTerm.value ∘ RawTerm.signed = RawTerm.value := funext value_signed
  rw [List.mapM_map, hvalue]

/-! ## The move -/

theorem degree_of_value {r : RawTerm} {t : Term Float} (hwell : r.WellFormed)
    (h : r.value = .ok t) : r.degree = t.exponent := by
  rcases Nat.lt_or_ge maxWrittenExponent r.degree with hlt | hle
  · rcases value_of_lt hwell hlt with ⟨digits, -, hfault⟩
    rw [hfault] at h
    cases h
  · rcases exists_denotes hwell with ⟨u, hu⟩
    rw [value_of_le hu (hu.degree ▸ hle)] at h
    cases h
    exact hu.degree

/-- The terms of a list that was evaluated have the exponents they are written with. -/
theorem exponent_ne_of_degree_ne {r : RawTerm} {t : Term Float} {passed : List RawTerm}
    {terms : List (Term Float)} (hr : r.WellFormed) (hpassed : ∀ u ∈ passed, u.WellFormed)
    (hne : ∀ u ∈ passed, u.degree ≠ r.degree) (ht : r.value = .ok t)
    (hterms : passed.mapM RawTerm.value = .ok terms) : ∀ u ∈ terms, u.exponent ≠ t.exponent := by
  intro u hu
  obtain ⟨q, hq, hvalue⟩ := exists_of_mem_of_mapM_eq_ok hterms hu
  rw [← degree_of_value (hpassed q hq) hvalue, ← degree_of_value hr ht]
  exact hne q hq

theorem exists_values_moved_iff {front passed back : List RawTerm} {r : RawTerm} {p : Poly Float}
    (hr : r.WellFormed) (hpassed : ∀ u ∈ passed, u.WellFormed)
    (hne : ∀ u ∈ passed, u.degree ≠ r.degree) :
    (∃ terms, (front ++ r :: passed ++ back).mapM RawTerm.value = .ok terms
        ∧ p = Poly.ofTerms terms)
      ↔ ∃ terms, (front ++ passed ++ r :: back).mapM RawTerm.value = .ok terms
        ∧ p = Poly.ofTerms terms := by
  constructor
  · rintro ⟨terms, hvalues, rfl⟩
    obtain ⟨_, c, hleft, hc, rfl⟩ := mapM_append_eq_ok_iff.1 hvalues
    obtain ⟨a, _, ha, hright, rfl⟩ := mapM_append_eq_ok_iff.1 hleft
    obtain ⟨t, b, ht, hb, rfl⟩ := mapM_cons_eq_ok_iff.1 hright
    refine ⟨a ++ b ++ t :: c, ?_, ?_⟩
    · exact mapM_append_eq_ok_iff.2 ⟨_, _, mapM_append_eq_ok_iff.2 ⟨a, b, ha, hb, rfl⟩,
        mapM_cons_eq_ok_iff.2 ⟨t, c, ht, hc, rfl⟩, rfl⟩
    · have hother := exponent_ne_of_degree_ne hr hpassed hne ht hb
      exact Poly.ofTerms_eq_of_coefficientsAt_eq fun e =>
        (Poly.coefficientsAt_moved hother a c e).symm
  · rintro ⟨terms, hvalues, rfl⟩
    obtain ⟨_, _, hleft, hright, rfl⟩ := mapM_append_eq_ok_iff.1 hvalues
    obtain ⟨a, b, ha, hb, rfl⟩ := mapM_append_eq_ok_iff.1 hleft
    obtain ⟨t, c, ht, hc, rfl⟩ := mapM_cons_eq_ok_iff.1 hright
    refine ⟨a ++ t :: b ++ c, ?_, ?_⟩
    · exact mapM_append_eq_ok_iff.2 ⟨_, _, mapM_append_eq_ok_iff.2 ⟨a, _, ha,
        mapM_cons_eq_ok_iff.2 ⟨t, b, ht, hb, rfl⟩, rfl⟩, hc, rfl⟩
    · have hother := exponent_ne_of_degree_ne hr hpassed hne ht hb
      exact Poly.ofTerms_eq_of_coefficientsAt_eq (Poly.coefficientsAt_moved hother a c)

theorem wellFormed_of_map_signed {s : List Char} {raw signed : List RawTerm}
    (hread : tokenize s = .ok raw) (h : raw.map RawTerm.signed = signed) :
    ∀ u ∈ signed, u.WellFormed := by
  intro u hu
  rw [← h] at hu
  obtain ⟨q, hq, rfl⟩ := List.mem_map.1 hu
  exact wellFormed_signed ((isReading_of_tokenize hread).wellFormed q hq)

/-- The value of a text is that of its terms with their signs written out. -/
theorem parseStripped_eq_ok_iff_signed {s : List Char} {raw signed : List RawTerm} {p : Poly Float}
    (hread : tokenize s = .ok raw) (h : raw.map RawTerm.signed = signed) :
    parseStripped s = .ok p
      ↔ ∃ terms, signed.mapM RawTerm.value = .ok terms ∧ p = Poly.ofTerms terms := by
  rw [← h, mapM_value_signed, parseStripped_eq_ok_iff, hread]
  constructor
  · rintro ⟨_, terms, hraw, hvalues, rfl⟩
    cases hraw
    exact ⟨terms, hvalues, rfl⟩
  · rintro ⟨terms, hvalues, rfl⟩
    exact ⟨raw, terms, rfl, hvalues, rfl⟩

/-- The move keeps whether a text has a value, and which. -/
theorem parse_moved_iff {s t : String} {raw moved : List RawTerm}
    (hraw : tokenize (Text.strip s.toList) = .ok raw)
    (hmoved : tokenize (Text.strip t.toList) = .ok moved) (h : MovesTerm raw moved)
    (p : Poly Float) : parse s = .ok p ↔ parse t = .ok p := by
  obtain ⟨front, r, passed, back, hne, hfrom, hto⟩ := h
  have hwell := wellFormed_of_map_signed hraw hfrom
  have hr : r.WellFormed := hwell r (by simp)
  have hpassed : ∀ u ∈ passed, u.WellFormed := fun u hu => hwell u (by simp [hu])
  rw [parse, parse, parseStripped_eq_ok_iff_signed hraw hfrom,
    parseStripped_eq_ok_iff_signed hmoved hto]
  exact exists_values_moved_iff hr hpassed hne

/-- The order of terms counts only among terms of one exponent. A rearrangement that keeps it
    there yields the same polynomial, to the last bit: its exponents are those of the terms, in
    ascending order, and its coefficients are the sums from zero, in the order of the list. So a
    text keeps its value when one of its terms moves, with its sign, past terms of other
    exponents. -/
theorem terms_pass_other_exponents :
    (∀ (terms : List (Term Float)) (σ : Equiv.Perm (Fin terms.length)),
        Poly.KeepsOrder terms σ → Poly.ofTerms (Poly.rearranged terms σ) = Poly.ofTerms terms)
      ∧ (∀ terms : List (Term Float), (Poly.ofTerms terms).IsAccumulated terms)
      ∧ ∀ (s t : String) (raw moved : List RawTerm), tokenize (Text.strip s.toList) = .ok raw →
        tokenize (Text.strip t.toList) = .ok moved → MovesTerm raw moved →
        ∀ p, parse s = .ok p ↔ parse t = .ok p := by
  refine ⟨?_, Poly.isAccumulated_ofTerms, ?_⟩
  · intro terms σ hkeeps
    exact Poly.ofTerms_eq_of_coefficientsAt_eq (Poly.coefficientsAt_rearranged hkeeps)
  · intro s t raw moved hraw hmoved hmoves
    exact parse_moved_iff hraw hmoved hmoves

/-- The first of two terms with the same exponent passes a third one and stays before the other,
    in a list and in a text. -/
theorem square_passes_x :
    Poly.KeepsOrder [⟨2, 3⟩, ⟨1, -1⟩, ⟨2, (0.5 : Float)⟩, ⟨0, 4⟩] (Equiv.swap 0 1)
      ∧ Poly.ofTerms (Poly.rearranged [⟨2, 3⟩, ⟨1, -1⟩, ⟨2, (0.5 : Float)⟩, ⟨0, 4⟩]
          (Equiv.swap 0 1)) = Poly.ofTerms [⟨2, 3⟩, ⟨1, -1⟩, ⟨2, 0.5⟩, ⟨0, 4⟩]
      ∧ ∃ raw moved, tokenize (Text.strip "3x^2 - x + .5x^2 + 4".toList) = .ok raw
        ∧ tokenize (Text.strip "-x + 3x^2 + .5x^2 + 4".toList) = .ok moved
        ∧ MovesTerm raw moved ∧ parse "-x + 3x^2 + .5x^2 + 4"
          = .ok (Poly.ofTerms [⟨0, 4⟩, ⟨1, -1⟩, ⟨2, 3.5⟩]) := by
  have hkeeps : Poly.KeepsOrder [⟨2, 3⟩, ⟨1, -1⟩, ⟨2, (0.5 : Float)⟩, ⟨0, 4⟩] (Equiv.swap 0 1) := by
    decide
  let square : RawTerm := ⟨none, .scaled, some ['3'], some ['2']⟩
  let line : RawTerm := ⟨some '-', .bare, none, none⟩
  let rest : List RawTerm :=
    [⟨some '+', .scaled, some ['.', '5'], some ['2']⟩, ⟨some '+', .constant, some ['4'], none⟩]
  have hraw : tokenize (Text.strip "3x^2 - x + .5x^2 + 4".toList) = .ok (square :: line :: rest) :=
    toOption_eq_some_iff.1 (by decide +kernel)
  have hmoved : tokenize (Text.strip "-x + 3x^2 + .5x^2 + 4".toList)
      = .ok (line :: square.signed :: rest) := toOption_eq_some_iff.1 (by decide +kernel)
  have hmoves : MovesTerm (square :: line :: rest) (line :: square.signed :: rest) :=
    ⟨[], square.signed, [line], rest, by decide, rfl, rfl⟩
  have hparse : parse "3x^2 - x + .5x^2 + 4"
      = .ok (Poly.ofTerms [⟨0, 4⟩, ⟨1, -1⟩, ⟨2, 3.5⟩]) :=
    toOption_eq_some_iff.1 (by decide +kernel)
  exact ⟨hkeeps, terms_pass_other_exponents.1 _ _ hkeeps, _, _, hraw, hmoved, hmoves,
    (terms_pass_other_exponents.2.2 _ _ _ _ hraw hmoved hmoves _).1 hparse⟩

end Expression

end PolyCalc
