import Mathlib.Logic.Relation
import PolyCalc.Poly.Text
import PolyCalc.Proofs.Binary64.Absorption
import PolyCalc.Proofs.Poly.Exchange
import PolyCalc.Proofs.Poly.Pointwise

/-!
# Stored Zero Terms

A polynomial may store zero terms, and those that are read from a text often do. Removing
one of them is a small step from one polynomial to another, and polynomials that such
steps connect, forwards or backwards, are the same but for zeros. Pruning is what decides
this: a step leaves the pruned polynomial as it is, and steps lead from each polynomial
down to the pruned one.

So whatever depends on nothing but the pruned operands cannot tell such polynomials apart.
A division begins by pruning and a text leaves zero terms out. For sums and differences it
is the remains of coefficients that count. A product is different, since a zero term takes
part in it like any other. Its products add nothing as long as they are zeros themselves,
and for that the other factors must be finite.

The value at a point is where zero terms can be seen: the factor there is a power, which
may be infinite where the point and all coefficients are finite.

## Main definitions

* `RemovesZero`: The removal of one zero term.
* `SameButZeros`: Polynomials that removals connect.
* `HasFiniteCoefficients`: A polynomial of finite coefficients.
* `HasFiniteZeroPowers`: A point at which zero terms have finite powers.
* `padded`, `paddedFactor`: Operands of a division with stored zeros.
* `topped`: A constant with a stored zero.

## Theorems

* `RemovesZero.prune_eq`: What one removal leaves of a polynomial.
* `sameButZeros_iff`: The same but for zeros means the same when pruned.
* `add_eq_of_prune_eq`, `subtract_eq_of_prune_eq`, `divide_eq_of_prune_eq`: Operands that
  are the same when pruned.
* `multiply_prune`: Products of finite coefficients can do without zero terms.
* `zero_terms_are_invisible`: All that zero terms do not change.
* `unlessZero_evaluate_prune`: Values of zero terms that are zeros.
* `value_without_zero_terms`: When zero terms do not change a value.
* `value_with_zero_term`: A zero term that does.
-/

namespace PolyCalc

namespace Poly

open Coefficient (LawfulSums unlessZero unlessZero_add unlessZero_neg unlessZero_foldl_add)

variable {K : Type}

theorem size_erase_lt {p : Poly K} {t : Term K} (ht : t ∈ p.terms) :
    (p.erase t.exponent).size < p.size := by
  refine List.length_filter_lt_length_iff_exists.2 ⟨t, ht, ?_⟩
  simp

variable [Coefficient K] {p p' q q' : Poly K}

/-! ## Removing zero terms -/

/-- One zero term is removed. -/
inductive RemovesZero (p : Poly K) : Poly K → Prop where
  | erase (t : Term K) (ht : t ∈ p.terms) (hzero : Coefficient.isZero t.coefficient = true) :
      RemovesZero p (p.erase t.exponent)

/-- Polynomials that become each other by removing and adding zero terms. -/
def SameButZeros : Poly K → Poly K → Prop := Relation.EqvGen RemovesZero

theorem RemovesZero.prune_eq (h : RemovesZero p q) : q.prune = p.prune := by
  obtain ⟨t, ht, hzero⟩ := h
  refine eq_of_get?_eq fun e => ?_
  rw [get?_prune, get?_prune, get?_erase]
  by_cases he : e = t.exponent
  · have hget : p.get? t.exponent = some t.coefficient := get?_eq_some_iff.2 ht
    rw [if_pos he, he, hget, Option.filter_some, hzero]
    rfl
  · rw [if_neg he]

theorem SameButZeros.prune_eq (h : p.SameButZeros q) : p.prune = q.prune := by
  induction h with
  | rel p q hstep => exact hstep.prune_eq.symm
  | refl p => rfl
  | symm p q hpq ih => exact ih.symm
  | trans p q r hpq hqr hp hq => exact hp.trans hq

/-- Zero terms can be removed one by one until the polynomial is pruned. -/
theorem removesZero_prune (p : Poly K) : Relation.ReflTransGen RemovesZero p p.prune := by
  induction hn : p.size using Nat.strong_induction_on generalizing p with
  | _ n ih =>
    by_cases hfree : p.ZeroFree
    · rw [prune_eq_self hfree]
    · unfold ZeroFree at hfree
      push Not at hfree
      obtain ⟨t, ht, hne⟩ := hfree
      have hstep : RemovesZero p (p.erase t.exponent) :=
        .erase t ht (Bool.eq_true_of_not_eq_false hne)
      have hrest := ih _ (hn ▸ size_erase_lt ht) (p.erase t.exponent) rfl
      rw [hstep.prune_eq] at hrest
      exact .head hstep hrest

theorem sameButZeros_prune (p : Poly K) : p.SameButZeros p.prune :=
  Relation.EqvGen.reflTransGen_le_eqvGen _ _ _ (removesZero_prune p)

theorem sameButZeros_iff : p.SameButZeros q ↔ p.prune = q.prune := by
  constructor
  · exact SameButZeros.prune_eq
  · intro h
    have hq := (sameButZeros_prune q).symm
    rw [← h] at hq
    exact (sameButZeros_prune p).trans _ _ _ hq

/-! ## Operations on pruned operands -/

theorem isZero_eq_of_prune_eq (h : p.prune = p'.prune) : p.isZero = p'.isZero := by
  rw [Bool.eq_iff_iff, isZero_iff_terms_prune, isZero_iff_terms_prune, h]

theorem divide_eq_of_prune_eq (hp : p.prune = p'.prune) (hq : q.prune = q'.prune) :
    p.divide q = p'.divide q' := by
  unfold divide
  rw [hp, hq]

theorem text_eq_of_prune_eq {p p' : Poly Float} (h : p.prune = p'.prune) : p.text = p'.text := by
  have hwritten : p.writtenTerms = p'.writtenTerms := by rw [writtenTerms, h, writtenTerms]
  rw [text, chars, hwritten, text, chars]

section Laws

variable [LawfulSums K]

theorem unlessZero_coefficient_eq (h : p.prune = p'.prune) (e : Nat) :
    unlessZero (p.coefficient e) = unlessZero (p'.coefficient e) := by
  rw [← get?_prune_eq_unlessZero, h, get?_prune_eq_unlessZero]

theorem add_eq_of_prune_eq (hp : p.prune = p'.prune) (hq : q.prune = q'.prune) :
    p.add q = p'.add q' := by
  refine eq_of_get?_eq fun e => ?_
  rw [get?_add, get?_add]
  exact unlessZero_add (unlessZero_coefficient_eq hp e) (unlessZero_coefficient_eq hq e)

theorem subtract_eq_of_prune_eq (hp : p.prune = p'.prune) (hq : q.prune = q'.prune) :
    p.subtract q = p'.subtract q' := by
  refine eq_of_get?_eq fun e => ?_
  rw [get?_subtract, get?_subtract]
  refine unlessZero_add (unlessZero_coefficient_eq hp e) ?_
  rw [unlessZero_neg, unlessZero_neg, unlessZero_coefficient_eq hq]

end Laws

/-! ## Products -/

/-- The pairs of pruned operands are the pairs without a zero term, in their order. -/
theorem pairsAt_prune (p q : Poly K) (e : Nat) :
    p.prune.pairsAt q.prune e = (p.pairsAt q e).filter fun x =>
      !Coefficient.isZero x.1.coefficient && !Coefficient.isZero x.2.coefficient := by
  refine eq_of_ascending_pairs (ascending_pairsAt _ _ e) ((ascending_pairsAt p q e).filter _) ?_
  rintro ⟨t, s⟩
  rw [List.mem_filter, mem_pairsAt, mem_pairsAt, mem_prune, mem_prune, Bool.and_eq_true,
    Bool.not_eq_true', Bool.not_eq_true']
  tauto

/-- All coefficients are finite. -/
def HasFiniteCoefficients (p : Poly Float) : Prop :=
  ∀ t ∈ p.terms, t.coefficient.isFinite = true

instance (p : Poly Float) : Decidable p.HasFiniteCoefficients :=
  inferInstanceAs (Decidable (∀ t ∈ p.terms, t.coefficient.isFinite = true))

/-- Adding zero terms brings in finite coefficients only. -/
theorem HasFiniteCoefficients.of_prune_eq {p p' : Poly Float} (hp : p.HasFiniteCoefficients)
    (h : p.prune = p'.prune) : p'.HasFiniteCoefficients := by
  intro t ht
  cases hzero : Coefficient.isZero t.coefficient with
  | false =>
      have hmem : t ∈ p.prune.terms := h ▸ mem_prune.2 ⟨ht, hzero⟩
      exact hp t (mem_prune.1 hmem).1
  | true => exact Binary64.isFinite_of_isZero hzero

/-- A product with a zero term is a zero if the coefficients are finite. -/
theorem isZero_product {p q : Poly Float} {e : Nat} (hp : p.HasFiniteCoefficients)
    (hq : q.HasFiniteCoefficients) {x : Term Float × Term Float} (hx : x ∈ p.pairsAt q e)
    (hzero : (!Coefficient.isZero x.1.coefficient && !Coefficient.isZero x.2.coefficient)
      = false) : Coefficient.isZero (x.1.coefficient * x.2.coefficient) = true := by
  obtain ⟨ht, hs, -⟩ := mem_pairsAt.1 hx
  rw [Bool.and_eq_false_iff, Bool.not_eq_false', Bool.not_eq_false'] at hzero
  rcases hzero with hleft | hright
  · rw [Binary64.isZero_multiply_eq hleft]
    exact hq _ hs
  · rw [Binary64.multiply_commutes, Binary64.isZero_multiply_eq hright]
    exact hp _ ht

theorem multiply_prune {p q : Poly Float} (hp : p.HasFiniteCoefficients)
    (hq : q.HasFiniteCoefficients) : p.prune.multiply q.prune = p.multiply q := by
  refine eq_of_get?_eq fun e => ?_
  rw [get?_multiply_eq_stored?, get?_multiply_eq_stored?, productsAt_eq_map, pairsAt_prune,
    productsAt_eq_map]
  exact unlessZero_foldl_add rfl fun x hx hzero => isZero_product hp hq hx hzero

theorem multiply_eq_of_prune_eq {p p' q q' : Poly Float} (hp : p.prune = p'.prune)
    (hq : q.prune = q'.prune) (hfinite : p.HasFiniteCoefficients)
    (hfinite' : q.HasFiniteCoefficients) : p.multiply q = p'.multiply q' := by
  rw [← multiply_prune hfinite hfinite', hp, hq,
    multiply_prune (hfinite.of_prune_eq hp) (hfinite'.of_prune_eq hq)]

/-- Zero terms in the operands change no sum, no difference and no division, neither its
    outcome nor its steps nor its failure, whatever the other coefficients are. They change
    no product of finite coefficients. The text of a polynomial and whether it counts as
    zero do not depend on them either. -/
theorem zero_terms_are_invisible {p p' q q' : Poly Float} (hp : p.SameButZeros p')
    (hq : q.SameButZeros q') :
    p.add q = p'.add q'
      ∧ p.subtract q = p'.subtract q'
      ∧ p.divide q = p'.divide q'
      ∧ (p.HasFiniteCoefficients → q.HasFiniteCoefficients → p.multiply q = p'.multiply q')
      ∧ p.text = p'.text
      ∧ p.isZero = p'.isZero := by
  rw [sameButZeros_iff] at hp hq
  exact ⟨add_eq_of_prune_eq hp hq, subtract_eq_of_prune_eq hp hq, divide_eq_of_prune_eq hp hq,
    multiply_eq_of_prune_eq hp hq, text_eq_of_prune_eq hp, isZero_eq_of_prune_eq hp⟩

/-- The polynomial `x ^ 2 - 1`, stored with a zero of either sign. -/
def padded : Poly Float := ⟨[⟨0, -1⟩, ⟨1, -0⟩, ⟨2, 1⟩, ⟨3, 0⟩], by decide⟩

/-- The polynomial `x - 1` with a zero for its leading term. -/
def paddedFactor : Poly Float := ⟨[⟨0, -1⟩, ⟨1, 1⟩, ⟨5, 0⟩], by decide⟩

theorem zero_terms_are_invisible_padded :
    padded.prune.exponents = [0, 2] ∧ paddedFactor.prune.exponents = [0, 1]
      ∧ padded.SameButZeros padded.prune ∧ paddedFactor.SameButZeros paddedFactor.prune
      ∧ padded.divide paddedFactor = padded.prune.divide paddedFactor.prune
      ∧ padded.multiply paddedFactor = padded.prune.multiply paddedFactor.prune
      ∧ padded.text = padded.prune.text := by
  have hp := sameButZeros_prune padded
  have hq := sameButZeros_prune paddedFactor
  obtain ⟨-, -, hdivide, hmultiply, htext, -⟩ := zero_terms_are_invisible hp hq
  exact ⟨by decide +kernel, by decide +kernel, hp, hq, hdivide,
    hmultiply (by decide +kernel) (by decide +kernel), htext⟩

/-! ## Values -/

/-- Zero terms whose values at a point are zeros do not change the value of a polynomial. -/
theorem unlessZero_evaluate_prune [LawfulSums K] {p : Poly K} {x : K}
    (h : ∀ t ∈ p.terms, Coefficient.isZero t.coefficient = true →
      Coefficient.isZero (t.coefficient * Coefficient.power x t.exponent) = true) :
    unlessZero (p.prune.evaluate x) = unlessZero (p.evaluate x) := by
  refine unlessZero_foldl_add rfl fun t ht hkeep => h t ht ?_
  rwa [Bool.not_eq_false'] at hkeep

/-- The powers of a point that belong to zero terms are finite. -/
def HasFiniteZeroPowers (p : Poly Float) (x : Float) : Prop :=
  ∀ t ∈ p.terms, Coefficient.isZero t.coefficient = true →
    (Binary64.power x t.exponent).isFinite = true

/-- Zero terms with finite powers do not change the value. -/
theorem isSameNumber_evaluate_prune {p : Poly Float} {x : Float} (h : p.HasFiniteZeroPowers x) :
    Binary64.IsSameNumber (p.evaluate x) (p.prune.evaluate x) := by
  rw [Binary64.isSameNumber_iff]
  refine (unlessZero_evaluate_prune fun t ht hzero => ?_).symm
  rw [Binary64.isZero_multiply_eq hzero]
  exact h t ht hzero

/-- A zero term with any other power leaves no number for a value. -/
theorem isNaN_evaluate {p : Poly Float} {x : Float} (h : ¬p.HasFiniteZeroPowers x) :
    (p.evaluate x).isNaN = true := by
  unfold HasFiniteZeroPowers at h
  push Not at h
  obtain ⟨t, ht, hzero, hpower⟩ := h
  refine Binary64.isNaN_foldl_add (.inr ⟨_, List.mem_map_of_mem ht, ?_⟩)
  rw [Binary64.isNaN_multiply_eq hzero]
  exact congrArg not (Bool.eq_false_of_not_eq_true hpower)

/-- With and without its zero terms a polynomial has the same value at a point, unless a
    power that belongs to one of them is not finite. Then there is no number for a value,
    and this is the same only if there is none without the zero terms either. -/
theorem value_without_zero_terms (p : Poly Float) (x : Float) :
    (Binary64.IsSameNumber (p.evaluate x) (p.prune.evaluate x)
        ↔ p.HasFiniteZeroPowers x ∨ (p.prune.evaluate x).isNaN = true)
      ∧ (¬p.HasFiniteZeroPowers x → (p.evaluate x).isNaN = true) := by
  refine ⟨?_, isNaN_evaluate⟩
  by_cases hfinite : p.HasFiniteZeroPowers x
  · exact iff_of_true (isSameNumber_evaluate_prune hfinite) (.inl hfinite)
  · have hnan := isNaN_evaluate hfinite
    rw [or_iff_right hfinite]
    constructor
    · intro hsame
      rw [← hsame.isNaN_eq]
      exact hnan
    · intro hpruned
      exact .inr ⟨hnan, hpruned⟩

/-- The polynomial `1`, stored with a zero term of a high degree. -/
def topped : Poly Float := ofTerms [⟨0, 1⟩, ⟨2000, 0⟩]

/-- At `10` the power for the zero term is too large for a double. -/
theorem value_with_zero_term :
    topped.HasFiniteCoefficients ∧ (10 : Float).isFinite = true
      ∧ (topped.evaluate 10).isNaN = true ∧ topped.prune.evaluate 10 = 1
      ∧ ¬Binary64.IsSameNumber (topped.evaluate 10) (topped.prune.evaluate 10) := by
  decide +kernel

end Poly

end PolyCalc
