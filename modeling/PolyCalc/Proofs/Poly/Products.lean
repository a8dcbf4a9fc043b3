import Mathlib.Data.List.Perm.Subperm
import Mathlib.Data.List.ProdSigma
import Mathlib.Data.List.Sort
import PolyCalc.Poly.Arithmetic
import PolyCalc.Poly.View

/-!
# The Products That Meet at an Exponent

A coefficient of a product is a sum: at its exponent some products of two coefficients
meet, and they are added up from zero in the order in which they come. The order is
that of the left operand, from the lowest exponent up. Since the two exponents always
have the same sum, the right operand is passed through from above at the same time, and
with the operands exchanged the same pairs come in the opposite order.

So exchanging the operands of a product turns each of its sums around. If coefficients
can be multiplied in either order, this is all that it does.

## Main definitions

* `coefficientsAt`: The coefficients that a list of terms has at an exponent.
* `pairsAt`: The pairs of terms whose product has an exponent.
* `productsAt`: The products that meet at an exponent.
* `total`: Their sum.

## Theorems

* `coefficient_accumulateAll`: What is accumulated at an exponent is added there in order.
* `mem_exponents_accumulateAll`: Something is stored there then.
* `get?_ofTerms`: A coefficient is the sum of those that meet.
* `get?_multiply`: So is a coefficient of a product, unless the sum is zero.
* `pairsAt_swap`: The pairs of exchanged operands come in the opposite order.
* `productsAt_swap`: So do their products.
* `length_productsAt_le`: A product has no more summands than an operand has terms.
-/

namespace PolyCalc

namespace Poly

variable {K : Type}

/-! ## Pairs -/

/-- The pairs of terms whose product has an exponent, in the order of their products. -/
def pairsAt (p q : Poly K) (e : Nat) : List (Term K × Term K) :=
  p.terms.flatMap fun t =>
    (q.terms.filter fun s => t.exponent + s.exponent = e).map fun s => (t, s)

theorem mem_pairsAt {p q : Poly K} {e : Nat} {t s : Term K} :
    (t, s) ∈ p.pairsAt q e ↔ t ∈ p.terms ∧ s ∈ q.terms ∧ t.exponent + s.exponent = e := by
  simp [pairsAt]

/-- The left terms of the pairs ascend, since a left term leaves one exponent to the
    right one. -/
theorem ascending_pairsAt (p q : Poly K) (e : Nat) :
    (p.pairsAt q e).Pairwise fun x y => x.1.exponent < y.1.exponent := by
  rw [pairsAt, List.pairwise_flatMap]
  constructor
  -- Two pairs with the same left term would have right terms at one exponent.
  · intro t ht
    rw [List.pairwise_map]
    refine (q.ascending.filter _).imp_of_mem fun hs hs' hlt => ?_
    have hsum := (List.mem_filter.1 hs).2
    have hsum' := (List.mem_filter.1 hs').2
    simp only [decide_eq_true_eq] at hsum hsum'
    omega
  · refine p.ascending.imp fun hlt x hx y hy => ?_
    obtain ⟨s, -, rfl⟩ := List.mem_map.1 hx
    obtain ⟨s', -, rfl⟩ := List.mem_map.1 hy
    exact hlt

/-- Lists of the same pairs are equal if the left terms ascend in both. -/
theorem eq_of_ascending_pairs {xs ys : List (Term K × Term K)}
    (hxs : xs.Pairwise fun x y => x.1.exponent < y.1.exponent)
    (hys : ys.Pairwise fun x y => x.1.exponent < y.1.exponent) (h : ∀ x, x ∈ xs ↔ x ∈ ys) :
    xs = ys := by
  have : Std.Antisymm fun x y : Term K × Term K => x.1.exponent < y.1.exponent :=
    ⟨fun x y hxy hyx => absurd hyx (Nat.lt_asymm hxy)⟩
  have : Std.Irrefl fun x y : Term K × Term K => x.1.exponent < y.1.exponent :=
    ⟨fun x => Nat.lt_irrefl _⟩
  exact hxs.eq_of_mem_iff hys h

/-- The pairs of exchanged operands are the same pairs in the opposite order. -/
theorem pairsAt_swap (p q : Poly K) (e : Nat) :
    q.pairsAt p e = ((p.pairsAt q e).map Prod.swap).reverse := by
  -- Where the left exponents ascend, the right ones descend.
  have hdescending : (p.pairsAt q e).Pairwise fun x y => y.2.exponent < x.2.exponent := by
    refine (ascending_pairsAt p q e).imp_of_mem fun hx hy hlt => ?_
    have hsum := (mem_pairsAt.1 hx).2.2
    have hsum' := (mem_pairsAt.1 hy).2.2
    omega
  refine eq_of_ascending_pairs (ascending_pairsAt q p e) ?_ ?_
  · rw [List.pairwise_reverse, List.pairwise_map]
    exact hdescending
  · rintro ⟨s, t⟩
    rw [List.mem_reverse, List.mem_map_swap, mem_pairsAt, mem_pairsAt, Nat.add_comm]
    exact and_left_comm

variable [Coefficient K]

/-! ## Coefficients that meet -/

/-- The coefficients that a list of terms has at an exponent. -/
def coefficientsAt (terms : List (Term K)) (e : Nat) : List K :=
  (terms.filter fun t => t.exponent = e).map Term.coefficient

/-- The sum of coefficients from zero. -/
def total (cs : List K) : K := cs.foldl (· + ·) Coefficient.zero

/-- What is stored at an exponent is all that was accumulated there, in its order. -/
theorem get?_accumulateAll (p : Poly K) (terms : List (Term K)) (e : Nat) :
    (p.accumulateAll terms).get? e
      = (coefficientsAt terms e).foldl (fun stored c => some (stored.getD Coefficient.zero + c))
        (p.get? e) := by
  induction terms generalizing p with
  | nil => rfl
  | cons t terms ih =>
      have hstep : (p.accumulateAll (t :: terms)).get? e
          = ((p.accumulate t).accumulateAll terms).get? e := rfl
      rw [hstep, ih, get?_accumulate]
      -- A term at another exponent neither changes what is stored nor meets anything.
      by_cases he : e = t.exponent
      · simp [coefficientsAt, he, coefficient]
      · simp [coefficientsAt, he, Ne.symm he]

theorem foldl_getD_some (cs : List K) (c : K) :
    cs.foldl (fun stored c => some (stored.getD Coefficient.zero + c)) (some c)
      = some (cs.foldl (· + ·) c) := by
  induction cs generalizing c with
  | nil => rfl
  | cons d cs ih => exact ih (c + d)

/-- A coefficient is the sum of all that was accumulated there, from the one that was there
    before, or from zero. -/
theorem coefficient_accumulateAll (p : Poly K) (terms : List (Term K)) (e : Nat) :
    (p.accumulateAll terms).coefficient e
      = (coefficientsAt terms e).foldl (· + ·) (p.coefficient e) := by
  rw [coefficient, coefficient, get?_accumulateAll]
  cases p.get? e with
  | some c => rw [foldl_getD_some, Option.getD_some, Option.getD_some]
  | none =>
      cases coefficientsAt terms e with
      | nil => rfl
      | cons c cs => rw [List.foldl_cons, foldl_getD_some, Option.getD_some, List.foldl_cons]

/-- Accumulating stores something wherever something was stored or is accumulated. -/
theorem mem_exponents_accumulateAll {p : Poly K} {terms : List (Term K)} {e : Nat} :
    e ∈ (p.accumulateAll terms).exponents
      ↔ e ∈ p.exponents ∨ ∃ t ∈ terms, t.exponent = e := by
  have hnone : coefficientsAt terms e = [] ↔ ¬∃ t ∈ terms, t.exponent = e := by
    rw [coefficientsAt, List.map_eq_nil_iff, List.filter_eq_nil_iff]
    simp only [decide_eq_true_eq, not_exists, not_and]
  rw [← not_iff_not, not_or, ← get?_eq_none_iff, ← get?_eq_none_iff, ← hnone, get?_accumulateAll]
  cases coefficientsAt terms e with
  | nil => simp only [List.foldl_nil, and_true]
  | cons c cs => simp only [List.foldl_cons, foldl_getD_some, reduceCtorEq, and_false]

/-- A coefficient of a polynomial of terms is the sum of those that meet there. -/
theorem get?_ofTerms (terms : List (Term K)) (e : Nat) :
    (ofTerms terms).get? e
      = if coefficientsAt terms e = [] then none else some (total (coefficientsAt terms e)) := by
  rw [ofTerms, get?_accumulateAll, get?_empty]
  cases coefficientsAt terms e with
  | nil => rfl
  | cons c cs =>
      rw [if_neg (List.cons_ne_nil c cs), List.foldl_cons, foldl_getD_some]
      rfl

/-! ## Products -/

/-- The products that meet at an exponent, in the order in which they are added. -/
def productsAt (p q : Poly K) (e : Nat) : List K := coefficientsAt (p.products q) e

theorem productsAt_eq_map (p q : Poly K) (e : Nat) :
    p.productsAt q e = (p.pairsAt q e).map fun (t, s) => t.coefficient * s.coefficient := by
  rw [productsAt, coefficientsAt, products, pairsAt]
  simp only [termProducts, List.filter_flatMap, List.map_flatMap, List.filter_map, List.map_map]
  rfl

/-- A coefficient of a product is the sum of the products that meet there, unless
    this is zero. -/
theorem get?_multiply (p q : Poly K) (e : Nat) :
    (p.multiply q).get? e
      = (if p.productsAt q e = [] then none else some (total (p.productsAt q e))).filter
        fun c => !Coefficient.isZero c := by
  rw [multiply, get?_prune, get?_ofTerms, productsAt]

/-- If coefficients can be multiplied in either order, exchanging the operands turns
    each sum of products around. -/
theorem productsAt_swap (hcommutes : ∀ a b : K, a * b = b * a) (p q : Poly K) (e : Nat) :
    q.productsAt p e = (p.productsAt q e).reverse := by
  rw [productsAt_eq_map, productsAt_eq_map, pairsAt_swap, List.map_reverse, List.map_map]
  refine congrArg List.reverse (List.map_congr_left fun x _ => ?_)
  exact hcommutes _ _

/-- Each term of the left operand takes part in one product at most. -/
theorem length_productsAt_le (p q : Poly K) (e : Nat) : (p.productsAt q e).length ≤ p.size := by
  -- The left exponents of the pairs are different exponents of the operand.
  have hnodup : ((p.pairsAt q e).map fun x => x.1.exponent).Nodup :=
    List.pairwise_map.2 ((ascending_pairsAt p q e).imp Nat.ne_of_lt)
  have hsubset : (p.pairsAt q e).map (fun x => x.1.exponent) ⊆ p.exponents := by
    intro d hd
    obtain ⟨⟨t, s⟩, hmem, rfl⟩ := List.mem_map.1 hd
    exact List.mem_map_of_mem (mem_pairsAt.1 hmem).1
  have hle := (hnodup.subperm hsubset).length_le
  rw [productsAt_eq_map, List.length_map]
  simpa [exponents, size] using hle

end Poly

end PolyCalc
