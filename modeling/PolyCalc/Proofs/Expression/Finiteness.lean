import PolyCalc.Proofs.Binary64.Range
import PolyCalc.Proofs.Expression.Values
import PolyCalc.Proofs.Poly.Products
import PolyCalc.Proofs.Poly.ZeroTerms

/-!
# When a Text Denotes Finite Coefficients

The grammar does not limit the digits of a number, and no number is refused for its size. So
a text that is accepted may denote infinities, by a number that is too large or by several
that are too large together, and opposite infinities add up to what is no number at all.

What can be said is when this happens. A number that is written alone is never the absence
of a number, and it is finite exactly if it is less than `overflowBound`. The terms that meet
at an exponent are added one after the other from zero, and their coefficient is finite
exactly if this sum stays in range at every step.

## Main definitions

* `RawTerm.written`: The number that a term is written with.
* `powerOfTen`: The digits of a number with 308 zeros.

## Theorems

* `coefficient_of_value`: The coefficient of a single term.
* `hasFiniteCoefficients_iff`: The coefficients of terms that were added up.
* `parse_is_finite_in_range`: The coefficients of a text.
* `parse_overflows`: Texts with coefficients that are not finite.
-/

namespace PolyCalc

open Binary64 (overflowBound StaysInRange)

/-- The number that a term is written with, without its sign: one if there is none. -/
def RawTerm.written (r : RawTerm) : ℚ :=
  match r.coefficient with
  | none => 1
  | some digits => ((Binary64.readDecimal digits).map Binary64.Decimal.toRat).getD 0

namespace Expression

/-- The magnitude of a term is the double nearest to the number written. -/
theorem exists_magnitude {r : RawTerm} (h : r.WellFormed) :
    ∃ x : Float, r.coefficientValue = .ok (if r.sign = some '-' then -x else x)
      ∧ x.isNaN = false ∧ (x.isFinite = true ↔ r.written < overflowBound) := by
  unfold RawTerm.written
  rcases coefficient_eq_of_wellFormed h with hnone | ⟨number, hsome, hnumber⟩
  · have hone : (1 : Float).isFinite = true := by decide +kernel
    rw [hnone]
    exact ⟨1, coefficientValue_of_none hnone, by decide +kernel,
      iff_of_true hone Binary64.one_lt_overflowBound⟩
  · rcases Binary64.exists_readDecimal hnumber with ⟨d, hd⟩
    have hread := readNumber_of_isUnsignedNumber hnumber hd
    rw [hsome]
    simp only [hd, Option.map_some, Option.getD_some]
    exact ⟨d.nearest, coefficientValue_of_readNumber hsome hread, d.isNaN_nearest,
      d.isFinite_nearest_iff⟩

/-- A single term has a number for its coefficient or an infinity, and an infinity exactly if
    the number written is too large. -/
theorem coefficient_of_value {r : RawTerm} {t : Term Float} (hwell : r.WellFormed)
    (h : r.value = .ok t) :
    t.coefficient.isNaN = false
      ∧ (t.coefficient.isFinite = true ↔ r.written < overflowBound) := by
  rcases exists_magnitude hwell with ⟨x, hx, hnan, hfinite⟩
  rcases exists_of_bind_eq_ok h with ⟨c, hc, h⟩
  rcases exists_of_bind_eq_ok h with ⟨e, -, h⟩
  cases h
  rw [hx] at hc
  cases hc
  split
  · rw [Binary64.isNaN_neg, Binary64.isFinite_neg]
    exact ⟨hnan, hfinite⟩
  · exact ⟨hnan, hfinite⟩

end Expression

namespace Poly

/-- The coefficients that are stored are finite if those at all exponents are. -/
theorem hasFiniteCoefficients_iff {p : Poly Float} :
    p.HasFiniteCoefficients ↔ ∀ e, (p.coefficient e).isFinite = true := by
  have hzero : (0 : Float).isFinite = true := Binary64.isFinite_of_isZero Binary64.isZero_zero
  constructor
  · intro h e
    cases hget : p.get? e with
    | none =>
        have habsent : p.coefficient e = 0 := coefficient_of_get?_eq_none hget
        rw [habsent, hzero]
    | some c =>
        rw [coefficient_of_get? hget]
        exact h ⟨e, c⟩ (get?_eq_some_iff.1 hget)
  · intro h t ht
    have hget : p.get? t.exponent = some t.coefficient := get?_eq_some_iff.2 ht
    rw [← coefficient_of_get? hget]
    exact h t.exponent

/-- A coefficient of terms that were added up is finite exactly if the sum stays in range. -/
theorem isFinite_coefficient_ofTerms_iff (terms : List (Term Float)) (e : Nat) :
    ((ofTerms terms).coefficient e).isFinite = true
      ↔ StaysInRange 0 (coefficientsAt terms e) := by
  have hzero : (empty : Poly Float).coefficient e = 0 := rfl
  rw [ofTerms, coefficient_accumulateAll, hzero]
  exact Binary64.isFinite_foldl_add_iff (Binary64.isFinite_of_isZero Binary64.isZero_zero)

end Poly

namespace Expression

/-- A text that is accepted denotes terms, each with a coefficient that is a number or an
    infinity: it is finite exactly if the number written is less than `overflowBound`. The
    coefficient at an exponent is finite exactly if the coefficients that meet there stay in
    range when they are added from zero, so the polynomial has finite coefficients exactly
    if this is so at each exponent. -/
theorem parse_is_finite_in_range (text : String) {p : Poly Float} (h : parse text = .ok p) :
    ∃ raw terms, tokenize (Text.strip text.toList) = .ok raw
      ∧ raw.mapM RawTerm.value = .ok terms ∧ p = Poly.ofTerms terms
      ∧ List.Forall₂ (fun r t => t.coefficient.isNaN = false
        ∧ (t.coefficient.isFinite = true ↔ r.written < overflowBound)) raw terms
      ∧ (∀ e, (p.coefficient e).isFinite = true
        ↔ StaysInRange 0 (Poly.coefficientsAt terms e))
      ∧ (p.HasFiniteCoefficients ↔ ∀ e, StaysInRange 0 (Poly.coefficientsAt terms e)) := by
  rcases parseStripped_eq_ok_iff.1 h with ⟨raw, terms, hread, hvalues, rfl⟩
  have hfinite := Poly.isFinite_coefficient_ofTerms_iff terms
  refine ⟨raw, terms, hread, hvalues, rfl, ?_, hfinite, ?_⟩
  · have hwell := (isReading_of_tokenize hread).wellFormed
    have hboth := (List.forall₂_and_left _ _).2 ⟨hwell, mapM_eq_ok_iff.1 hvalues⟩
    exact hboth.imp fun r t hrt => coefficient_of_value hrt.1 hrt.2
  · rw [Poly.hasFiniteCoefficients_iff, forall_congr' hfinite]

/-- A sum of two terms at one exponent that stays in range. -/
theorem parse_is_finite_in_range_sum :
    ∃ p, parse "3 x ^ 2 - .5 x ^ 2" = .ok p
      ∧ ∃ terms, p = Poly.ofTerms terms ∧ ∀ e, StaysInRange 0 (Poly.coefficientsAt terms e) := by
  have hparse : parse "3 x ^ 2 - .5 x ^ 2" = .ok (Poly.ofTerms [⟨2, 2.5⟩]) :=
    toOption_eq_some_iff.1 (by decide +kernel)
  have hfinite : (Poly.ofTerms [⟨2, 2.5⟩]).HasFiniteCoefficients := by decide +kernel
  rcases parse_is_finite_in_range _ hparse with ⟨raw, terms, -, -, hterms, -, -, hrange⟩
  exact ⟨_, hparse, terms, hterms, hrange.1 hfinite⟩

/-- The digits of a number with 308 zeros. -/
def powerOfTen (digit : Char) : List Char := digit :: List.replicate 308 '0'

theorem exists_parse_ofList {s : List Char} {test : Poly Float → Bool} {answer : Bool}
    (h : (parseStripped (Text.strip s)).toOption.map test = some answer) :
    ∃ p, parse (String.ofList s) = .ok p ∧ test p = answer := by
  rcases Option.map_eq_some_iff.1 h with ⟨p, hp, htest⟩
  refine ⟨p, ?_, htest⟩
  rw [parse, String.toList_ofList]
  exact toOption_eq_some_iff.1 hp

/-- Texts that are accepted with coefficients that are not finite: a number with 309 digits,
    the sum of two that are finite alone, and the difference of two infinities, which is no
    number. -/
theorem parse_overflows :
    (∃ p, parse (String.ofList (powerOfTen '2')) = .ok p ∧ ¬p.HasFiniteCoefficients)
      ∧ (∃ p, parse (String.ofList (powerOfTen '1')) = .ok p ∧ p.HasFiniteCoefficients)
      ∧ (∃ p, parse (String.ofList (powerOfTen '1' ++ '+' :: powerOfTen '1')) = .ok p
        ∧ ¬p.HasFiniteCoefficients)
      ∧ ∃ p, parse (String.ofList (powerOfTen '2' ++ '-' :: powerOfTen '2')) = .ok p
        ∧ (p.coefficient 0).isNaN = true := by
  have hliteral : (parseStripped (Text.strip (powerOfTen '2'))).toOption.map
      (fun p => decide p.HasFiniteCoefficients) = some false := by
    decide +kernel
  have hsingle : (parseStripped (Text.strip (powerOfTen '1'))).toOption.map
      (fun p => decide p.HasFiniteCoefficients) = some true := by
    decide +kernel
  have hsum : (parseStripped (Text.strip (powerOfTen '1' ++ '+' :: powerOfTen '1'))).toOption.map
      (fun p => decide p.HasFiniteCoefficients) = some false := by
    decide +kernel
  have hdifference : (parseStripped (Text.strip
      (powerOfTen '2' ++ '-' :: powerOfTen '2'))).toOption.map
      (fun p => (p.coefficient 0).isNaN) = some true := by
    decide +kernel
  rcases exists_parse_ofList hliteral with ⟨p, hp, hinfinite⟩
  rcases exists_parse_ofList hsingle with ⟨q, hq, hfinite⟩
  rcases exists_parse_ofList hsum with ⟨r, hr, htotal⟩
  exact ⟨⟨p, hp, of_decide_eq_false hinfinite⟩, ⟨q, hq, of_decide_eq_true hfinite⟩,
    ⟨r, hr, of_decide_eq_false htotal⟩, exists_parse_ofList hdifference⟩

end Expression

end PolyCalc
