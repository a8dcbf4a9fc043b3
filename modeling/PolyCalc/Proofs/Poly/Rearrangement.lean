import Mathlib.Data.List.FinRange
import PolyCalc.Proofs.Poly.Products

/-!
# The Order of Terms

Sums of doubles depend on the order of their summands, so the polynomial of a list of terms
depends on the order of the list. It does so only within an exponent: what is accumulated at
one exponent neither changes what is stored at another one nor is changed by it. So terms may
pass each other freely as long as their exponents differ, and two lists with the same
coefficients in the same order at each exponent have the same polynomial, to the last bit.

A rearrangement is given here by a permutation of positions, because a list may hold the same
term twice, and then values do not tell which of the two moved. The positions of the terms with
a given exponent come in ascending order before the rearrangement. If it keeps the order of
such terms, they come in ascending order after it too, and they are the same positions.

## Main definitions

* `rearranged`: A list of terms with its positions permuted.
* `KeepsOrder`: A permutation that lets no two terms of one exponent pass each other.
* `IsAccumulated`: A polynomial made of the terms of a list.

## Theorems

* `filter_map_perm`: The positions of an exponent come in ascending order still.
* `coefficientsAt_rearranged`: So do its coefficients.
* `coefficientsAt_moved`: A term that passes terms of other exponents.
* `ofTerms_eq_of_coefficientsAt_eq`: Nothing but the coefficients at each exponent counts.
* `isAccumulated_ofTerms`: What the polynomial of a list is.
-/

namespace PolyCalc

namespace Poly

variable {K : Type}

/-! ## Rearrangements -/

/-- The terms in the order in which a permutation names their positions. -/
def rearranged (terms : List (Term K)) (σ : Equiv.Perm (Fin terms.length)) : List (Term K) :=
  List.ofFn fun i => terms.get (σ i)

/-- Terms with equal exponents keep their order: of two positions that the permutation names
    for them, the first one is the lower one. -/
def KeepsOrder (terms : List (Term K)) (σ : Equiv.Perm (Fin terms.length)) : Prop :=
  ∀ i j, i < j → (terms.get (σ i)).exponent = (terms.get (σ j)).exponent → σ i < σ j

instance (terms : List (Term K)) (σ : Equiv.Perm (Fin terms.length)) :
    Decidable (KeepsOrder terms σ) :=
  inferInstanceAs (Decidable (∀ _ _, _ → _ → _))

/-- The positions of an exponent come in ascending order, as they do without the
    permutation. -/
theorem filter_map_perm {terms : List (Term K)} {σ : Equiv.Perm (Fin terms.length)}
    (h : KeepsOrder terms σ) (e : Nat) :
    (((List.finRange terms.length).map σ).filter fun i => (terms.get i).exponent = e)
      = (List.finRange terms.length).filter fun i => (terms.get i).exponent = e := by
  have hordered : (List.finRange terms.length).Pairwise (· < ·) := List.pairwise_lt_finRange _
  have hmoved : (((List.finRange terms.length).map σ).filter fun i =>
      (terms.get i).exponent = e).Pairwise (· < ·) := by
    rw [List.pairwise_filter, List.pairwise_map]
    refine hordered.imp fun {i j} hij hi hj => h i j hij ?_
    rw [of_decide_eq_true hi, of_decide_eq_true hj]
  refine List.Perm.eq_of_pairwise ?_ hmoved (hordered.filter _) (σ.map_finRange_perm.filter _)
  intro i j _ _ hij hji
  exact absurd hji (Fin.lt_asymm hij)

/-- At each exponent a rearrangement leaves the coefficients in their order. -/
theorem coefficientsAt_rearranged {terms : List (Term K)} {σ : Equiv.Perm (Fin terms.length)}
    (h : KeepsOrder terms σ) (e : Nat) :
    coefficientsAt (rearranged terms σ) e = coefficientsAt terms e := by
  have hmoved : rearranged terms σ = ((List.finRange terms.length).map σ).map terms.get := by
    rw [rearranged, List.ofFn_eq_map, List.map_map]
    rfl
  have hfilter : (rearranged terms σ).filter (fun t => t.exponent = e)
      = terms.filter fun t => t.exponent = e :=
    calc (rearranged terms σ).filter (fun t => t.exponent = e)
        = (((List.finRange terms.length).map σ).filter
            fun i => (terms.get i).exponent = e).map terms.get := by
          rw [hmoved, List.filter_map]
          rfl
      _ = ((List.finRange terms.length).filter
            fun i => (terms.get i).exponent = e).map terms.get := by
          rw [filter_map_perm h]
      _ = ((List.finRange terms.length).map terms.get).filter fun t => t.exponent = e := by
          rw [List.filter_map]
          rfl
      _ = terms.filter fun t => t.exponent = e := by
          rw [List.map_get_finRange]
  rw [coefficientsAt, coefficientsAt, hfilter]

/-! ## One term moved -/

theorem coefficientsAt_append (front back : List (Term K)) (e : Nat) :
    coefficientsAt (front ++ back) e = coefficientsAt front e ++ coefficientsAt back e := by
  rw [coefficientsAt, List.filter_append, List.map_append]
  rfl

/-- A term that passes terms of other exponents moves among no coefficients. -/
theorem coefficientsAt_moved {t : Term K} {passed : List (Term K)}
    (h : ∀ u ∈ passed, u.exponent ≠ t.exponent) (front back : List (Term K)) (e : Nat) :
    coefficientsAt (front ++ passed ++ t :: back) e
      = coefficientsAt (front ++ t :: passed ++ back) e := by
  have hcons (terms : List (Term K)) :
      coefficientsAt (t :: terms) e = coefficientsAt [t] e ++ coefficientsAt terms e :=
    coefficientsAt_append [t] terms e
  have hexchange : coefficientsAt passed e ++ coefficientsAt [t] e
      = coefficientsAt [t] e ++ coefficientsAt passed e := by
    by_cases he : t.exponent = e
    · have hnone : coefficientsAt passed e = [] := by
        rw [coefficientsAt, List.map_eq_nil_iff, List.filter_eq_nil_iff]
        intro u hu
        rw [decide_eq_true_eq, ← he]
        exact h u hu
      rw [hnone, List.nil_append, List.append_nil]
    · have hnone : coefficientsAt [t] e = [] := by
        rw [coefficientsAt, List.filter_singleton, decide_eq_false he]
        rfl
      rw [hnone, List.nil_append, List.append_nil]
  rw [coefficientsAt_append, coefficientsAt_append, hcons back, coefficientsAt_append,
    coefficientsAt_append, hcons passed]
  simp only [List.append_assoc]
  rw [← List.append_assoc (coefficientsAt passed e), hexchange, List.append_assoc]

/-! ## Accumulating -/

variable [Coefficient K]

/-- The polynomial that is made of the terms of a list. -/
structure IsAccumulated (p : Poly K) (terms : List (Term K)) : Prop where
  /-- Its exponents are those of the list -/
  mem_exponents_iff : ∀ e, e ∈ p.exponents ↔ e ∈ terms.map Term.exponent
  /-- in ascending order, -/
  ascending : p.exponents.Pairwise (· < ·)
  /-- and each coefficient is the sum, from zero and in the order of the list, of those that the
      list has at its exponent. -/
  get? : ∀ e ∈ p.exponents, p.get? e = some (total (coefficientsAt terms e))

theorem isAccumulated_ofTerms (terms : List (Term K)) : (ofTerms terms).IsAccumulated terms where
  mem_exponents_iff := by
    intro e
    have hempty : e ∉ (empty : Poly K).exponents := List.not_mem_nil
    rw [ofTerms, mem_exponents_accumulateAll, or_iff_right hempty, List.mem_map]
  ascending := List.pairwise_map.2 (ofTerms terms).ascending
  get? := by
    intro e he
    have hsome : (ofTerms terms).get? e ≠ none := fun hnone => get?_eq_none_iff.1 hnone he
    rw [get?_ofTerms] at hsome ⊢
    rw [if_neg fun hnil => hsome (if_pos hnil)]

/-- Lists with the same coefficients in the same order at each exponent have the same
    polynomial. -/
theorem ofTerms_eq_of_coefficientsAt_eq {s t : List (Term K)}
    (h : ∀ e, coefficientsAt s e = coefficientsAt t e) : ofTerms s = ofTerms t := by
  refine eq_of_get?_eq fun e => ?_
  rw [get?_ofTerms, get?_ofTerms, h]

/-- Within an exponent the order counts: next to `2 ^ 53` a one is lost. -/
example : (ofTerms [⟨0, 1⟩, ⟨2, 1⟩, ⟨0, 9007199254740992⟩, ⟨0, -9007199254740992⟩] : Poly Float)
    ≠ ofTerms [⟨0, 9007199254740992⟩, ⟨2, 1⟩, ⟨0, -9007199254740992⟩, ⟨0, 1⟩] := by
  decide +kernel

end Poly

end PolyCalc
