import PolyCalc.Proofs.Poly.Products
import PolyCalc.Proofs.Poly.Supports

/-!
# Products as Convolutions

A product is computed by a double loop that updates coefficients all over the result, one
after the other. Each single coefficient can be computed on its own instead. Its summands
are found by going through the exponents of the left operand from the lowest one up and
asking the right operand what it has to the sum; an exponent without such a partner is
passed over.

Both computations add up the same products in the same order, so nothing is assumed about
sums: they may round, and the order may matter.

## Main definitions

* `partners`: The exponents of the left operand with a partner in the right one.
* `convolution`: The sum of the products with the partners.

## Theorems

* `mem_partners`: Which exponents have a partner.
* `map_pairsAt_eq_partners`: The pairs that meet are those with a partner.
* `total_productsAt`: The sum of those that meet is the convolution.
* `multiply_is_convolution`: What a product stores, exponent by exponent.
-/

namespace PolyCalc

namespace Poly

variable {K : Type}

/-- The exponents of the left operand for which the right one has a term at the difference
    to `e`, in ascending order. -/
def partners (p q : Poly K) (e : Nat) : List Nat :=
  p.exponents.filter fun d => d ≤ e ∧ e - d ∈ q.exponents

theorem mem_partners {p q : Poly K} {d e : Nat} :
    d ∈ p.partners q e ↔ d ∈ p.exponents ∧ ∃ f ∈ q.exponents, d + f = e := by
  rw [partners, List.mem_filter, decide_eq_true_eq]
  refine and_congr_right fun _ => ⟨?_, ?_⟩
  · rintro ⟨hle, hmem⟩
    exact ⟨e - d, hmem, Nat.add_sub_cancel' hle⟩
  · rintro ⟨f, hf, rfl⟩
    refine ⟨Nat.le_add_right d f, ?_⟩
    rwa [Nat.add_sub_cancel_left]

theorem ascending_exponents (p : Poly K) : p.exponents.Pairwise (· < ·) :=
  List.pairwise_map.2 p.ascending

theorem ascending_partners (p q : Poly K) (e : Nat) : (p.partners q e).Pairwise (· < ·) :=
  p.ascending_exponents.filter _

/-- The pairs of terms that meet are those of an exponent with its partner. -/
theorem map_pairsAt_eq_partners (p q : Poly K) (e : Nat) :
    (p.pairsAt q e).map (fun x => x.1.exponent) = p.partners q e := by
  have hascending : ((p.pairsAt q e).map fun x => x.1.exponent).Pairwise (· < ·) :=
    List.pairwise_map.2 (ascending_pairsAt p q e)
  -- Both lists ascend strictly, so it is enough that they have the same members.
  refine hascending.eq_of_mem_iff (ascending_partners p q e) fun d => ?_
  rw [mem_partners, List.mem_map]
  constructor
  · rintro ⟨⟨t, s⟩, hmem, rfl⟩
    obtain ⟨ht, hs, hsum⟩ := mem_pairsAt.1 hmem
    exact ⟨mem_exponents.2 ⟨t, ht, rfl⟩, s.exponent, mem_exponents.2 ⟨s, hs, rfl⟩, hsum⟩
  · rintro ⟨hd, f, hf, hsum⟩
    obtain ⟨t, ht, rfl⟩ := mem_exponents.1 hd
    obtain ⟨s, hs, rfl⟩ := mem_exponents.1 hf
    exact ⟨(t, s), mem_pairsAt.2 ⟨ht, hs, hsum⟩, rfl⟩

variable [Coefficient K]

/-- The sum, from zero, of the products of the coefficients at the exponents of the left
    operand with those of their partners. -/
def convolution (p q : Poly K) (e : Nat) : K :=
  (p.partners q e).foldl (fun sum d => sum + p.coefficient d * q.coefficient (e - d))
    Coefficient.zero

/-- The products that meet at an exponent are those with the partners, in their order. -/
theorem productsAt_eq_map_partners (p q : Poly K) (e : Nat) :
    p.productsAt q e = (p.partners q e).map fun d => p.coefficient d * q.coefficient (e - d) := by
  rw [productsAt_eq_map, ← map_pairsAt_eq_partners, List.map_map]
  refine List.map_congr_left fun x hx => ?_
  obtain ⟨t, s⟩ := x
  obtain ⟨ht, hs, hsum⟩ := mem_pairsAt.1 hx
  have hpartner : e - t.exponent = s.exponent := by omega
  simp only [Function.comp_apply]
  rw [hpartner, coefficient_of_get? (get?_eq_some_iff.2 ht),
    coefficient_of_get? (get?_eq_some_iff.2 hs)]

theorem total_productsAt (p q : Poly K) (e : Nat) :
    total (p.productsAt q e) = p.convolution q e := by
  rw [productsAt_eq_map_partners, total, List.foldl_map, convolution]

/-- A product stores the convolution where an exponent has a partner, unless it is zero. -/
theorem get?_multiply_eq_some_iff {p q : Poly K} {e : Nat} {c : K} :
    (p.multiply q).get? e = some c ↔ p.partners q e ≠ []
      ∧ Coefficient.isZero (p.convolution q e) = false ∧ p.convolution q e = c := by
  have hnil : p.productsAt q e = [] ↔ p.partners q e = [] := by
    rw [productsAt_eq_map_partners, List.map_eq_nil_iff]
  rw [get?_multiply, total_productsAt]
  by_cases hpartners : p.partners q e = []
  · simp [hnil.2 hpartners, hpartners]
  · rw [if_neg fun h => hpartners (hnil.1 h), Option.filter_eq_some_iff, Option.some.injEq,
      Bool.not_eq_true']
    constructor
    · rintro ⟨rfl, hzero⟩
      exact ⟨hpartners, hzero, rfl⟩
    · rintro ⟨-, hzero, rfl⟩
      exact ⟨rfl, hzero⟩

/-- A product stores a term at an exponent exactly if some exponent of the left operand has
    a partner and the convolution is not zero, and then it stores the convolution. The
    summands of the convolution are the products for all exponents of the left operand
    with a partner in the right one, from the lowest exponent up. -/
theorem multiply_is_convolution (p q : Poly K) (e : Nat) :
    (p.partners q e).Pairwise (· < ·)
      ∧ (∀ d, d ∈ p.partners q e ↔ d ∈ p.exponents ∧ ∃ f ∈ q.exponents, d + f = e)
      ∧ (e ∈ (p.multiply q).exponents ↔ (∃ d, d ∈ p.partners q e)
        ∧ Coefficient.isZero (p.convolution q e) = false)
      ∧ ∀ c, (p.multiply q).get? e = some c → c = p.convolution q e := by
  refine ⟨ascending_partners p q e, fun d => mem_partners, ?_, ?_⟩
  · rw [mem_exponents_iff]
    constructor
    · rintro ⟨c, hc⟩
      obtain ⟨hpartners, hzero, -⟩ := get?_multiply_eq_some_iff.1 hc
      exact ⟨List.exists_mem_of_ne_nil _ hpartners, hzero⟩
    · rintro ⟨⟨d, hd⟩, hzero⟩
      exact ⟨_, get?_multiply_eq_some_iff.2 ⟨List.ne_nil_of_mem hd, hzero, rfl⟩⟩
  · intro c hc
    exact (get?_multiply_eq_some_iff.1 hc).2.2.symm

/-- What is no number is not zero either: an infinity times a stored zero is kept. -/
example :
    ((ofTerms [⟨0, Binary64.infinity⟩, ⟨2, 1⟩]).multiply (ofTerms [⟨1, 0⟩])).exponents = [1] := by
  decide +kernel

end Poly

end PolyCalc
