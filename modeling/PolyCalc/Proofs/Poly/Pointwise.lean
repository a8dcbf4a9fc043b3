import PolyCalc.Proofs.Binary64.Negation
import PolyCalc.Proofs.Poly.Products
import PolyCalc.Proofs.Poly.Supports

/-!
# Sums and Differences Term by Term

The operands of a sum are not treated alike: one is copied, and the terms of the other are
accumulated onto the copy one after the other, so an exponent that is missing in the copy
goes through a zero first. Still the result depends on nothing but the two coefficients at
each exponent, an absent one being zero. What is stored is their sum, unless this is zero,
and the same holds for differences.

So laws of coefficients turn into laws of polynomials. The laws of `LawfulSums` are enough
for exchanging the operands of a sum or of a difference, and the doubles obey them. That a
difference of equal operands is empty takes one more fact, which infinities do not share:
a coefficient and its negative must cancel.

## Main definitions

* `IsPointwise`: A polynomial that stores given coefficients, apart from zeros.

## Theorems

* `coefficientsAt_terms`: A polynomial has one coefficient at an exponent at most.
* `get?_prune_eq_unlessZero`: What remains of a coefficient in a pruned polynomial.
* `get?_add`, `get?_subtract`: What sums and differences store.
* `add_exchanged`, `subtract_exchanged`: The operands exchanged.
* `subtract_self`: A polynomial without itself.
* `add_and_subtract_pointwise`: Sums and differences of polynomials of doubles.
-/

namespace PolyCalc

namespace Poly

open Coefficient (LawfulSums unlessZero unlessZero_add unlessZero_add_right
  unlessZero_add_zero unlessZero_neg unlessZero_of_isZero unlessZero_eq_none_iff
  unlessZero_eq_some_iff)

variable {K : Type}

/-! ## Accumulating a polynomial -/

/-- A polynomial has one coefficient at an exponent at most, the one that is found there. -/
theorem coefficientsAt_terms (p : Poly K) (e : Nat) :
    coefficientsAt p.terms e = (p.get? e).toList := by
  cases hget : p.get? e with
  | none =>
      have hnil : (p.terms.filter fun t => t.exponent = e) = [] := by
        refine List.filter_eq_nil_iff.2 fun t ht he => get?_eq_none_iff.1 hget ?_
        exact mem_exponents.2 ⟨t, ht, of_decide_eq_true he⟩
      rw [coefficientsAt, hnil]
      rfl
  | some c =>
      have hsingle : (p.terms.filter fun t => t.exponent = e) = [⟨e, c⟩] := by
        refine eq_of_mem_iff (p.ascending.filter _) (List.pairwise_singleton _ _) fun t => ?_
        rw [List.mem_filter, decide_eq_true_eq, List.mem_singleton]
        constructor
        · rintro ⟨ht, he⟩
          exact eq_of_exponent_eq p.ascending ht (get?_eq_some_iff.1 hget) he
        · rintro rfl
          exact ⟨get?_eq_some_iff.1 hget, rfl⟩
      rw [coefficientsAt, hsingle]
      rfl

variable [Coefficient K]

section Laws

variable [LawfulSums K]

/-- Pruning leaves of each coefficient what remains of it. -/
theorem get?_prune_eq_unlessZero (p : Poly K) (e : Nat) :
    p.prune.get? e = unlessZero (p.coefficient e) := by
  rw [get?_prune]
  cases hget : p.get? e with
  | none =>
      rw [coefficient_of_get?_eq_none hget, unlessZero_of_isZero LawfulSums.isZero_zero]
      rfl
  | some c =>
      rw [coefficient_of_get? hget, Option.filter_some, unlessZero]
      cases Coefficient.isZero c <;> rfl

/-- Accumulating a polynomial adds its coefficients, where an absent one makes no difference. -/
theorem unlessZero_coefficient_accumulateAll (p q : Poly K) (e : Nat) :
    unlessZero ((p.accumulateAll q.terms).coefficient e)
      = unlessZero (p.coefficient e + q.coefficient e) := by
  have hget := get?_accumulateAll p q.terms e
  rw [coefficientsAt_terms] at hget
  cases hq : q.get? e with
  | none =>
      rw [hq] at hget
      rw [coefficient_of_get?_eq_none hq, unlessZero_add_zero LawfulSums.isZero_zero, coefficient,
        hget]
      rfl
  | some c =>
      rw [hq] at hget
      rw [coefficient_of_get? hq, coefficient, hget]
      rfl

theorem unlessZero_coefficient_neg (p : Poly K) (e : Nat) :
    unlessZero (p.neg.coefficient e) = unlessZero (-p.coefficient e) := by
  have hneg : p.neg.get? e = (p.get? e).map fun c => -c := get?_map _ p e
  cases hget : p.get? e with
  | none =>
      rw [hget] at hneg
      rw [coefficient_of_get?_eq_none hget, coefficient_of_get?_eq_none hneg, unlessZero_neg,
        unlessZero_of_isZero LawfulSums.isZero_zero, Option.map_none]
  | some c =>
      rw [hget] at hneg
      rw [coefficient_of_get? hget, coefficient_of_get? hneg]

/-! ## Sums and differences -/

/-- A sum stores the sums of coefficients that are not zero. -/
theorem get?_add (p q : Poly K) (e : Nat) :
    (p.add q).get? e = unlessZero (p.coefficient e + q.coefficient e) := by
  rw [add, get?_prune_eq_unlessZero, unlessZero_coefficient_accumulateAll]

/-- A difference stores the sums with negatives that are not zero. -/
theorem get?_subtract (p q : Poly K) (e : Nat) :
    (p.subtract q).get? e = unlessZero (p.coefficient e + -q.coefficient e) := by
  rw [subtract, get?_prune_eq_unlessZero, unlessZero_coefficient_accumulateAll]
  exact unlessZero_add_right (unlessZero_coefficient_neg q e)

theorem add_exchanged (p q : Poly K) : p.add q = q.add p := by
  refine eq_of_get?_eq fun e => ?_
  rw [get?_add, get?_add, LawfulSums.add_comm]

/-- A difference is the negative of the difference the other way round. -/
theorem subtract_exchanged (p q : Poly K) : p.subtract q = (q.subtract p).neg := by
  refine eq_of_get?_eq fun e => ?_
  rw [neg, get?_map, get?_subtract, get?_subtract, ← unlessZero_neg, ← LawfulSums.neg_add,
    LawfulSums.neg_neg, LawfulSums.add_comm]

/-- If each coefficient and its negative cancel, nothing is left of a polynomial without
    itself. -/
theorem subtract_self {p : Poly K}
    (h : ∀ t ∈ p.terms, Coefficient.isZero (t.coefficient + -t.coefficient) = true) :
    p.subtract p = empty := by
  refine eq_of_get?_eq fun e => ?_
  rw [get?_subtract, get?_empty, unlessZero_eq_none_iff]
  cases hget : p.get? e with
  | none =>
      have hneg : Coefficient.isZero (-Coefficient.zero : K) = true :=
        (LawfulSums.isZero_neg _).trans LawfulSums.isZero_zero
      rw [coefficient_of_get?_eq_none hget, ← unlessZero_eq_none_iff, unlessZero_add_zero hneg,
        unlessZero_eq_none_iff]
      exact LawfulSums.isZero_zero
  | some c =>
      rw [coefficient_of_get? hget]
      exact h ⟨e, c⟩ (get?_eq_some_iff.1 hget)

end Laws

/-! ## Doubles -/

/-- A polynomial that has the number `c e` for a coefficient at every exponent `e`, and
    stores a term for those that are not zero. -/
structure IsPointwise (r : Poly Float) (c : Nat → Float) : Prop where
  coefficient : ∀ e, Binary64.IsSameNumber (r.coefficient e) (c e)
  stored_iff : ∀ e, e ∈ r.exponents ↔ Coefficient.isZero (c e) = false

theorem isPointwise_of_get? {r : Poly Float} {c : Nat → Float}
    (h : ∀ e, r.get? e = unlessZero (c e)) : r.IsPointwise c := by
  constructor
  case coefficient =>
    intro e
    rw [Binary64.isSameNumber_iff, ← h e]
    cases hget : r.get? e with
    | none =>
        rw [coefficient_of_get?_eq_none hget]
        exact unlessZero_of_isZero LawfulSums.isZero_zero
    | some d =>
        rw [h e, unlessZero_eq_some_iff] at hget
        rw [coefficient_of_get? ((h e).trans (unlessZero_eq_some_iff.2 hget)),
          unlessZero_eq_some_iff]
        exact ⟨hget.2 ▸ hget.1, rfl⟩
  case stored_iff =>
    intro e
    rw [mem_exponents_iff]
    constructor
    · rintro ⟨d, hd⟩
      exact (unlessZero_eq_some_iff.1 ((h e).symm.trans hd)).1
    · intro hzero
      exact ⟨c e, (h e).trans (unlessZero_eq_some_iff.2 ⟨hzero, rfl⟩)⟩

/-- The coefficients of a sum are the sums of the coefficients, an absent one being zero,
    and those of a difference are the differences; a term is stored exactly where they are
    not zero. So the operands of a sum can be exchanged, a difference is the negative of
    the exchanged one, and of a polynomial without itself nothing is left if all its
    coefficients are finite. -/
theorem add_and_subtract_pointwise (p q : Poly Float) :
    (p.add q).IsPointwise (fun e => p.coefficient e + q.coefficient e)
      ∧ (p.subtract q).IsPointwise (fun e => p.coefficient e - q.coefficient e)
      ∧ p.add q = q.add p
      ∧ p.subtract q = (q.subtract p).neg
      ∧ ((∀ t ∈ p.terms, t.coefficient.isFinite = true) → p.subtract p = empty) := by
  refine ⟨isPointwise_of_get? (get?_add p q), isPointwise_of_get? fun e => ?_, add_exchanged p q,
    subtract_exchanged p q, fun hfinite => subtract_self fun t ht => ?_⟩
  · rw [get?_subtract, Binary64.subtract_eq_add_neg]
  · exact Binary64.isZero_add_neg_self (hfinite t ht)

end Poly

end PolyCalc
