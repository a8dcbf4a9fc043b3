import PolyCalc.Proofs.Binary64.Exactness
import PolyCalc.Proofs.Poly.Products

/-!
# Exchanging the Operands of a Product

Products of doubles do not depend on the order of the operands, but sums of more than
two do. Both orders of a product of polynomials add up the same products of coefficients
at each exponent, one of them backwards, so rounding can make a difference wherever
three products meet: in a coefficient, or in whether a term is stored at all. Then it
can also be that one order overflows and the other one does not.

No difference can arise where at most two products meet, which is everywhere if one of
the operands has no more than two terms. Nor can one arise where both sums are exact:
they are the same number then, and if it is zero, neither order stores a term. All sums
are exact if the coefficients are small multiples of a power of two, such as eighths.

Equal polynomials store equal coefficients at the same exponents. There is only one
double that is not a number, so two of them count as equal here, although `==` tells
them apart. Exponents are natural numbers, and so are their sums: where exponents are
words of a machine, all this is about operands with sums that fit a word.

## Main definitions

* `IsExactSum`: A sum of doubles that is the number which they add up to.
* `IsOrderFree`: Doubles with the same sum in both orders, for one of two reasons.
* `stored?`: What is stored for coefficients that meet.
* `HasMultiples`: A polynomial of small multiples of a power of two.
* `absorbing`, `ones`: Operands whose order makes a difference.

## Theorems

* `stored?_reverse`: Without regard to the order the same is stored.
* `isExactSum_of_isMultiple`: Sums of small multiples are exact.
* `multiply_exchanged`: The product of exchanged operands.
* `multiply_depends_on_order`: Three products that meet, in both orders.
-/

namespace PolyCalc

namespace Poly

open Binary64

/-- A sum from zero without an error: the doubles are numbers, and the sum is the number
    that these add up to. -/
def IsExactSum (cs : List Float) : Prop :=
  ∃ numbers : List ℚ, cs.map toRat? = numbers.map some ∧ toRat? (total cs) = some numbers.sum

example : IsExactSum [0.5, 0.25, -0.75] :=
  ⟨[1 / 2, 1 / 4, -3 / 4], by decide +kernel, by decide +kernel⟩

/-- At most two doubles, or any number of doubles whose sums in both orders are exact. -/
def IsOrderFree (cs : List Float) : Prop :=
  cs.length ≤ 2 ∨ IsExactSum cs ∧ IsExactSum cs.reverse

/-- What is stored for coefficients that meet: their sum, unless it is a zero. -/
def stored? (cs : List Float) : Option Float :=
  if Coefficient.isZero (total cs) then none else some (total cs)

/-- Where no product meets, the sum is a zero and nothing is stored either. -/
theorem get?_multiply_eq_stored? (p q : Poly Float) (e : Nat) :
    (p.multiply q).get? e = stored? (p.productsAt q e) := by
  rw [get?_multiply, stored?]
  cases p.productsAt q e with
  | nil => rfl
  | cons c cs =>
      rw [if_neg (List.cons_ne_nil c cs), Option.filter_some]
      cases Coefficient.isZero (total (c :: cs)) with
      | false => rfl
      | true => rfl

/-! ## Sums in both orders -/

/-- At most two doubles have the same sum in both orders. -/
theorem total_reverse_of_length_le {cs : List Float} (h : cs.length ≤ 2) :
    total cs.reverse = total cs := by
  match cs with
  | [] => rfl
  | [c] => rfl
  | [c, d] => exact zero_add_add_commutes d c
  | _ :: _ :: _ :: _ => simp at h

/-- Exact sums of the same doubles in two orders are the same number. -/
theorem exists_toRat?_total {cs : List Float} (h : IsExactSum cs)
    (hreverse : IsExactSum cs.reverse) :
    ∃ v, toRat? (total cs) = some v ∧ toRat? (total cs.reverse) = some v := by
  obtain ⟨numbers, hnumbers, hsum⟩ := h
  obtain ⟨backwards, hbackwards, hreversed⟩ := hreverse
  -- The doubles determine the numbers, so these stand in the opposite order as well.
  have hsame : backwards = numbers.reverse := by
    rw [List.map_reverse, hnumbers, ← List.map_reverse] at hbackwards
    exact (List.map_injective_iff.2 (Option.some_injective ℚ) hbackwards).symm
  rw [hsame, List.sum_reverse] at hreversed
  exact ⟨numbers.sum, hsum, hreversed⟩

/-- Without regard to the order the same is stored. -/
theorem stored?_reverse {cs : List Float} (h : IsOrderFree cs) :
    stored? cs.reverse = stored? cs := by
  rcases h with hlength | ⟨hexact, hreverse⟩
  · rw [stored?, total_reverse_of_length_le hlength, stored?]
  · obtain ⟨v, hv, hv'⟩ := exists_toRat?_total hexact hreverse
    by_cases hzero : v = 0
    -- The zeros of the two orders may differ in sign, but neither is stored.
    · rw [stored?, if_pos ((isZero_iff_of_toRat? hv').2 hzero), stored?,
        if_pos ((isZero_iff_of_toRat? hv).2 hzero)]
    · rw [stored?, eq_of_toRat?_eq hv' hv hzero, stored?]

/-! ## Sums of multiples -/

section Multiples

variable {g : Int} {bound : Nat} (hleast : -1074 ≤ g) (hgreatest : g ≤ 971)
include hleast hgreatest

/-- Multiples are added up without an error as long as there is room for all of them. -/
theorem toRat?_foldl_add {cs : List Float} {sum : Float} {k : Int}
    (hsum : toRat? sum = some ((k : ℚ) * 2 ^ g)) (hcs : ∀ c ∈ cs, IsMultiple g bound c)
    (hroom : k.natAbs + cs.length * bound < 2 ^ 53) :
    ∃ numbers : List ℚ, cs.map toRat? = numbers.map some
      ∧ toRat? (cs.foldl (· + ·) sum) = some (k * 2 ^ g + numbers.sum) := by
  induction cs generalizing sum k with
  | nil => exact ⟨[], rfl, by rw [List.sum_nil, add_zero]; exact hsum⟩
  | cons c cs ih =>
      obtain ⟨i, hi, hc⟩ := hcs c List.mem_cons_self
      rw [List.length_cons, Nat.succ_mul] at hroom
      have hbound := Int.natAbs_add_le k i
      have hnumber : (k : ℚ) * 2 ^ g + i * 2 ^ g = ((k + i : ℤ) : ℚ) * 2 ^ g := by
        rw [Int.cast_add, add_mul]
      have hdouble : IsDouble (((k + i : ℤ) : ℚ) * 2 ^ g) :=
        isDouble_mul_two_zpow (by omega) hleast hgreatest
      have hstep := toRat?_add hsum hc (hnumber ▸ hdouble)
      rw [hnumber] at hstep
      obtain ⟨numbers, hnumbers, htotal⟩ :=
        ih hstep (fun d hd => hcs d (List.mem_cons_of_mem c hd)) (by omega)
      refine ⟨i * 2 ^ g :: numbers, ?_, ?_⟩
      · rw [List.map_cons, hc, hnumbers, List.map_cons]
      · rw [List.foldl_cons, htotal, ← hnumber, List.sum_cons, add_assoc]

theorem isExactSum_of_isMultiple {cs : List Float} (hcs : ∀ c ∈ cs, IsMultiple g bound c)
    (hroom : cs.length * bound < 2 ^ 53) : IsExactSum cs := by
  have hzero : toRat? 0 = some (((0 : ℤ) : ℚ) * 2 ^ g) := by
    rw [toRat?_of_isZero isZero_zero, Int.cast_zero, zero_mul]
  obtain ⟨numbers, hnumbers, htotal⟩ := toRat?_foldl_add hleast hgreatest hzero hcs (by omega)
  rw [Int.cast_zero, zero_mul, zero_add] at htotal
  exact ⟨numbers, hnumbers, htotal⟩

end Multiples

/-! ## Products in both orders -/

theorem get?_multiply_exchanged {p q : Poly Float} {e : Nat}
    (h : IsOrderFree (p.productsAt q e)) : (p.multiply q).get? e = (q.multiply p).get? e := by
  rw [get?_multiply_eq_stored?, get?_multiply_eq_stored?,
    productsAt_swap Binary64.multiply_commutes p q, stored?_reverse h]

/-- Each term of either operand takes part in one product at most. -/
theorem length_productsAt_le_min (p q : Poly Float) (e : Nat) :
    (p.productsAt q e).length ≤ min p.size q.size := by
  have hle := length_productsAt_le q p e
  rw [productsAt_swap Binary64.multiply_commutes p q, List.length_reverse] at hle
  exact Nat.le_min.2 ⟨length_productsAt_le p q e, hle⟩

/-- If an operand has no more than two terms, no more than two products meet. -/
theorem isOrderFree_of_size_le {p q : Poly Float} (h : p.size ≤ 2 ∨ q.size ≤ 2) (e : Nat) :
    IsOrderFree (p.productsAt q e) := by
  have hle := length_productsAt_le_min p q e
  exact .inl (by omega)

/-- The coefficients are whole multiples of `2 ^ g`, of at most `bound` times it. -/
def HasMultiples (p : Poly Float) (g : Int) (bound : Nat) : Prop :=
  ∀ t ∈ p.terms, IsMultiple g bound t.coefficient

/-- If there is room for as many products as can meet at an exponent, all sums are exact. -/
theorem isOrderFree_of_hasMultiples {p q : Poly Float} {g h : Int} {a b : Nat}
    (hp : p.HasMultiples g a) (hq : q.HasMultiples h b)
    (hroom : min p.size q.size * (a * b) < 2 ^ 53) (hleast : -1074 ≤ g + h)
    (hgreatest : g + h ≤ 971) (e : Nat) : IsOrderFree (p.productsAt q e) := by
  have hlength := length_productsAt_le_min p q e
  have hsum : (p.productsAt q e).length * (a * b) < 2 ^ 53 :=
    (Nat.mul_le_mul_right (a * b) hlength).trans_lt hroom
  have hproducts : ∀ c ∈ p.productsAt q e, IsMultiple (g + h) (a * b) c := by
    intro c hc
    -- If there is a product, there is room for one.
    have hone : 1 * (a * b) ≤ (p.productsAt q e).length * (a * b) :=
      Nat.mul_le_mul_right (a * b) (List.length_pos_of_mem hc)
    rw [productsAt_eq_map] at hc
    obtain ⟨⟨t, s⟩, hmem, rfl⟩ := List.mem_map.1 hc
    obtain ⟨ht, hs, -⟩ := mem_pairsAt.1 hmem
    exact (hp t ht).multiply (hq s hs) (by omega) hleast hgreatest
  refine .inr ⟨isExactSum_of_isMultiple hleast hgreatest hproducts hsum, ?_⟩
  refine isExactSum_of_isMultiple hleast hgreatest
    (fun c hc => hproducts c (List.mem_reverse.1 hc)) ?_
  rwa [List.length_reverse]

/-- With the operands exchanged the same products meet at each exponent, in the opposite
    order, and what is stored is their sum from zero in this order, unless it is zero.
    So the two products agree at each exponent where at most two products meet or where
    both sums are exact. They are the same polynomial if this is so everywhere, and in
    particular if one operand has no more than two terms, or if both have multiples of
    powers of two for coefficients, so small that no sum needs more than 53 bits.

    Coefficients that are not numbers are equal, and sums of exponents are not bounded. -/
theorem multiply_exchanged (p q : Poly Float) :
    (∀ e, q.productsAt p e = (p.productsAt q e).reverse
        ∧ (p.multiply q).get? e = stored? (p.productsAt q e)
        ∧ (q.multiply p).get? e = stored? (p.productsAt q e).reverse
        ∧ (IsOrderFree (p.productsAt q e) → (p.multiply q).get? e = (q.multiply p).get? e))
      ∧ ((∀ e, IsOrderFree (p.productsAt q e)) → p.multiply q = q.multiply p)
      ∧ (p.size ≤ 2 ∨ q.size ≤ 2 → p.multiply q = q.multiply p)
      ∧ (∀ g h a b, p.HasMultiples g a → q.HasMultiples h b →
        min p.size q.size * (a * b) < 2 ^ 53 → -1074 ≤ g + h → g + h ≤ 971 →
        p.multiply q = q.multiply p) := by
  -- What is stored at each exponent is all that there is to a polynomial.
  have hwhole : (∀ e, IsOrderFree (p.productsAt q e)) → p.multiply q = q.multiply p :=
    fun h => eq_of_get?_eq fun e => get?_multiply_exchanged (h e)
  refine ⟨fun e => ?_, hwhole, fun hsize => hwhole (isOrderFree_of_size_le hsize), ?_⟩
  · have hswap := productsAt_swap Binary64.multiply_commutes p q e
    refine ⟨hswap, get?_multiply_eq_stored? p q e, ?_, get?_multiply_exchanged⟩
    rw [get?_multiply_eq_stored?, hswap]
  · intro g h a b hp hq hroom hleast hgreatest
    exact hwhole (isOrderFree_of_hasMultiples hp hq hroom hleast hgreatest)

/-- The polynomial `1 + 2 ^ 53 x - 2 ^ 53 x ^ 2`: the next double after `2 ^ 53` is
    `2 ^ 53 + 2`, so a one that is added first is lost. -/
def absorbing : Poly Float := ofTerms [⟨0, 1⟩, ⟨1, 9007199254740992⟩, ⟨2, -9007199254740992⟩]

/-- The polynomial `1 + x + x ^ 2`. -/
def ones : Poly Float := ofTerms [⟨0, 1⟩, ⟨1, 1⟩, ⟨2, 1⟩]

/-- Three products that meet at `x ^ 2`, of finite coefficients. In one order the one is
    lost and no term is stored there, in the other order it is what is left. -/
theorem multiply_depends_on_order :
    (∀ t ∈ absorbing.terms ++ ones.terms, t.coefficient.isFinite = true)
      ∧ (∀ t ∈ absorbing.products ones, t.exponent < 2 ^ 64)
      ∧ (absorbing.multiply ones).get? 2 = none ∧ (ones.multiply absorbing).get? 2 = some 1
      ∧ (absorbing.multiply ones).exponents ≠ (ones.multiply absorbing).exponents := by
  decide +kernel

end Poly

end PolyCalc
