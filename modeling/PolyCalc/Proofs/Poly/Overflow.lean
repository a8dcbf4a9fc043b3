import Mathlib.Algebra.Group.Nat.Defs
import PolyCalc.Proofs.Fallible
import PolyCalc.Proofs.Poly.Steps

/-!
# Exponents in Words

Exponents are natural numbers here, and nothing limits them. A machine keeps them in
words of 64 bits, where a sum that is too large comes out as a small number and a
difference below zero as a large one. `checkedMultiply` and `checkedDivide` are the
same algorithms with each sum and each difference of exponents checked: where the
result does not fit into a word, they fail and tell which operation it was. An
algorithm for which the check never fails can use words and need not check anything.

Multiplication needs room for the sums, which is a matter of its operands. Division
makes its own room: a step lifts the divisor to the leading term of the remainder and
not further, so all sums of the step stay within the degree of the remainder, and
this degree falls. Whatever fits into a word in the dividend is therefore enough for
the whole division, and the divisor does not matter at all.

A checked result is the result of the unchecked algorithm, whether or not everything
fits. That is why the checked loop ends: its measure is the one of the unchecked loop.

## Main definitions

* `Exponent.sum`, `Exponent.difference`: The checked operations.
* `checkedMultiply`, `checkedDivide`: The algorithms with checked exponents.
* `IsWithin`: A step whose operations on exponents stay within its degree.

## Theorems

* `eq_multiply_of_checkedMultiply`: A checked product is the product.
* `checkedMultiply_of_lt`: A product whose exponents fit is found.
* `checkedReduce_of_step`: One step of a division within a word.
* `checkedReduce_of_reduction`: A whole run within a word.
* `Reduction.isWithin`: Every step of a run stays within its degree.
* `degreeBefore_le_degree`: These degrees are not above that of the dividend.
* `checkedDivide_of_lt`: Division never leaves the words of its dividend.
-/

namespace PolyCalc

namespace Exponent

/-- The number of exponents that a word of 64 bits can hold. -/
def capacity : Nat := 2 ^ 64

/-- An operation on exponents with a result that no word holds. -/
inductive Overflow where
  | sum (a b : Nat)
  | difference (a b : Nat)
deriving DecidableEq, Repr

/-- The sum of two exponents, if a word holds it. -/
def sum (a b : Nat) : Except Overflow Nat :=
  if a + b < capacity then .ok (a + b) else .error (.sum a b)

/-- The difference of two exponents, if it is not below zero. -/
def difference (a b : Nat) : Except Overflow Nat :=
  if b ≤ a then .ok (a - b) else .error (.difference a b)

theorem sum_of_lt {a b : Nat} (h : a + b < capacity) : sum a b = .ok (a + b) := if_pos h

theorem difference_of_le {a b : Nat} (h : b ≤ a) : difference a b = .ok (a - b) := if_pos h

theorem eq_of_sum_eq_ok {a b c : Nat} (h : sum a b = .ok c) : c = a + b := by
  unfold sum at h
  split at h
  · exact (Except.ok.inj h).symm
  · cases h

theorem eq_of_difference_eq_ok {a b c : Nat} (h : difference a b = .ok c) : c = a - b := by
  unfold difference at h
  split at h
  · exact (Except.ok.inj h).symm
  · cases h

end Exponent

namespace Poly

open Exponent (Overflow capacity)

variable {K : Type} [Coefficient K]

/-! ## Products -/

/-- The product of two terms, with the sum of the exponents checked. -/
def checkedProduct (t s : Term K) : Except Overflow (Term K) :=
  (Exponent.sum t.exponent s.exponent).map fun e => ⟨e, t.coefficient * s.coefficient⟩

/-- The products of all pairs of terms, with each sum of exponents checked. -/
def checkedProducts (p q : Poly K) : Except Overflow (List (Term K)) :=
  (p.terms.mapM fun t => q.terms.mapM (checkedProduct t)).map List.flatten

/-- The product of two polynomials, with each sum of exponents checked. -/
def checkedMultiply (p q : Poly K) : Except Overflow (Poly K) :=
  (p.checkedProducts q).map fun terms => (ofTerms terms).prune

theorem eq_products_of_checkedProducts {p q : Poly K} {terms : List (Term K)}
    (h : p.checkedProducts q = .ok terms) : terms = p.products q := by
  obtain ⟨rows, hrows, rfl⟩ := map_eq_ok_iff.1 h
  have hrow : ∀ t row, q.terms.mapM (checkedProduct t) = .ok row →
      row = termProducts t q.terms := by
    intro t row hrow
    refine eq_map_of_mapM_eq_ok (fun s u hu => ?_) hrow
    obtain ⟨e, he, rfl⟩ := map_eq_ok_iff.1 hu
    rw [Exponent.eq_of_sum_eq_ok he]
  rw [eq_map_of_mapM_eq_ok hrow hrows, products, List.flatMap]

theorem checkedProducts_of_lt {p q : Poly K} (h : ∀ t ∈ p.products q, t.exponent < capacity) :
    p.checkedProducts q = .ok (p.products q) := by
  have hrow : ∀ t ∈ p.terms, q.terms.mapM (checkedProduct t) = .ok (termProducts t q.terms) := by
    intro t ht
    refine mapM_eq_ok_map fun s hs => ?_
    have hlt : t.exponent + s.exponent < capacity :=
      h _ (List.mem_flatMap.2 ⟨t, ht, List.mem_map.2 ⟨s, hs, rfl⟩⟩)
    rw [checkedProduct, Exponent.sum_of_lt hlt]
    rfl
  rw [checkedProducts, mapM_eq_ok_map hrow, products, List.flatMap]
  rfl

theorem eq_multiply_of_checkedMultiply {p q product : Poly K}
    (h : p.checkedMultiply q = .ok product) : product = p.multiply q := by
  obtain ⟨terms, hterms, rfl⟩ := map_eq_ok_iff.1 h
  rw [multiply, eq_products_of_checkedProducts hterms]

theorem checkedMultiply_of_lt {p q : Poly K} (h : ∀ t ∈ p.products q, t.exponent < capacity) :
    p.checkedMultiply q = .ok (p.multiply q) := by
  rw [checkedMultiply, checkedProducts_of_lt h]
  rfl

/-! ## The loop of a division -/

theorem bound_checkedRest_lt {divisor remainder product : Poly K} {lead top factor : Term K}
    (hlead : divisor.leadingTerm? = some lead) (htop : remainder.leadingTerm? = some top)
    (hdegree : lead.exponent ≤ top.exponent)
    (hfactor : Exponent.difference top.exponent lead.exponent = .ok factor.exponent)
    (hproduct : (monomial factor).checkedMultiply divisor = .ok product) :
    ((remainder.subtract product).erase top.exponent).bound < remainder.bound := by
  have hsum : factor.exponent + lead.exponent = top.exponent := by
    rw [Exponent.eq_of_difference_eq_ok hfactor, Nat.sub_add_cancel hdegree]
  rw [eq_multiply_of_checkedMultiply hproduct]
  exact bound_reduceStep_lt hlead htop hsum

/-- The loop of the division by a divisor with the given leading term, with each
    difference and each sum of exponents checked. -/
def checkedReduce (divisor : Poly K) (lead : Term K) (hlead : divisor.leadingTerm? = some lead)
    (quotient remainder : Poly K) : Except Overflow (Division K) :=
  match _htop : remainder.leadingTerm? with
  | none => .ok ⟨quotient.prune, remainder, []⟩
  | some top =>
    if _hdegree : top.exponent < lead.exponent then .ok ⟨quotient.prune, remainder, []⟩
    else
      match _hfactor : Exponent.difference top.exponent lead.exponent with
      | .error overflow => .error overflow
      | .ok e =>
        let factor : Term K := ⟨e, top.coefficient / lead.coefficient⟩
        match _hproduct : (monomial factor).checkedMultiply divisor with
        | .error overflow => .error overflow
        | .ok product =>
          let next := remainder.subtract product
          let rest := next.erase top.exponent
          let step : DivisionStep K :=
            ⟨top.exponent, rest.leadingTerm?.map Term.exponent, factor,
              next.coefficient top.exponent⟩
          (checkedReduce divisor lead hlead (quotient.accumulate factor) rest).map fun division =>
            { division with steps := step :: division.steps }
termination_by remainder.bound
decreasing_by
  exact bound_checkedRest_lt hlead _htop (Nat.le_of_not_lt _hdegree) _hfactor _hproduct

/-- Division with remainder, with each operation on exponents checked. -/
def checkedDivide (p divisor : Poly K) : Except Overflow (Option (Division K)) :=
  match hlead : divisor.prune.leadingTerm? with
  | none => .ok none
  | some lead => (checkedReduce divisor.prune lead hlead empty p.prune).map some

section Loop

variable {divisor quotient remainder : Poly K} {lead : Term K} {result : Division K}

/-- All sums of a step stay within the degree of the remainder. -/
theorem exponent_le_of_mem_products_factor {top t : Term K}
    (hlead : divisor.leadingTerm? = some lead) (hdegree : lead.exponent ≤ top.exponent)
    (ht : t ∈ (monomial (factor lead top)).products divisor) : t.exponent ≤ top.exponent := by
  have hsum : (factor lead top).exponent + lead.exponent = top.exponent :=
    Nat.sub_add_cancel hdegree
  have hle := exponent_le_of_mem_products_monomial hlead ht
  omega

theorem checkedReduce_of_stop (hlead : divisor.leadingTerm? = some lead)
    (hbelow : remainder.bound ≤ lead.exponent) :
    checkedReduce divisor lead hlead quotient remainder
      = .ok ⟨quotient.prune, remainder, []⟩ := by
  rw [checkedReduce]
  split
  · rfl
  · rename_i top htop
    rw [bound_of_leadingTerm? htop] at hbelow
    exact dif_pos hbelow

/-- A step from a degree that fits into a word finds all its checks passed. -/
theorem checkedReduce_of_step {top : Term K} (hlead : divisor.leadingTerm? = some lead)
    (htop : remainder.leadingTerm? = some top) (hdegree : lead.exponent ≤ top.exponent)
    (hfits : top.exponent < capacity) :
    checkedReduce divisor lead hlead quotient remainder
      = (checkedReduce divisor lead hlead (quotient.accumulate (factor lead top))
          (rest divisor lead top remainder)).map
        fun division =>
          { division with steps := record divisor lead top remainder :: division.steps } := by
  have hfactor := Exponent.difference_of_le hdegree
  have hproduct : (monomial (factor lead top)).checkedMultiply divisor
      = .ok ((monomial (factor lead top)).multiply divisor) :=
    checkedMultiply_of_lt fun t ht =>
      Nat.lt_of_le_of_lt (exponent_le_of_mem_products_factor hlead hdegree ht) hfits
  -- Each of the four branches of the loop is decided by one of the facts above.
  rw [checkedReduce]
  split
  · rename_i hnone
    rw [htop] at hnone
    cases hnone
  · rename_i hsome
    rw [htop] at hsome
    cases hsome
    rw [dif_neg (Nat.not_lt.2 hdegree)]
    split
    · rename_i herror
      rw [hfactor] at herror
      cases herror
    · rename_i hok
      rw [hfactor] at hok
      cases hok
      simp only
      split
      · rename_i herror
        cases hproduct.symm.trans herror
      · rename_i hok
        cases hproduct.symm.trans hok
        rfl

/-- A run from a remainder that fits into words finds all its checks passed. -/
theorem checkedReduce_of_reduction (hlead : divisor.leadingTerm? = some lead)
    (hrun : Reduction divisor lead quotient remainder result)
    (hfits : remainder.bound ≤ capacity) :
    checkedReduce divisor lead hlead quotient remainder = .ok result := by
  induction hrun with
  | stop quotient remainder hbelow => exact checkedReduce_of_stop hlead hbelow
  | step quotient remainder top result htop hdegree hrest ih =>
      -- The degree falls, so what the step leaves fits as well.
      have hfall := bound_rest_le hlead htop hdegree
      rw [bound_of_leadingTerm? htop] at hfits
      rw [checkedReduce_of_step hlead htop hdegree (by omega), ih (by omega)]
      rfl

end Loop

/-- The operations on exponents that a step performs stay within its degree: the
    divisor is not above it, and no sum of the exponents of the quotient term and of
    a term of the divisor is. -/
structure IsWithin (divisor : Poly K) (s : DivisionStep K) : Prop where
  isAt : s.IsAt divisor.degree
  sums : ∀ t ∈ (monomial s.quotientTerm).products divisor, t.exponent ≤ s.degreeBefore

theorem Reduction.isWithin {divisor quotient remainder : Poly K} {lead : Term K}
    {result : Division K} (hlead : divisor.leadingTerm? = some lead)
    (hrun : Reduction divisor lead quotient remainder result) {s : DivisionStep K}
    (hs : s ∈ result.steps) : IsWithin divisor s := by
  have hisAt := hrun.isAt s hs
  constructor
  · rw [degree_of_leadingTerm? hlead]
    exact hisAt
  · intro t ht
    rw [← hisAt.exponent_add]
    exact exponent_le_of_mem_products_monomial hlead ht

/-- The degrees that a division passes through are not above that of the dividend. -/
theorem degreeBefore_le_degree {p divisor : Poly K} {lead : Term K} {result : Division K}
    (hlead : divisor.leadingTerm? = some lead)
    (hrun : Reduction divisor lead empty p.prune result) {s : DivisionStep K}
    (hs : s ∈ result.steps) : s.degreeBefore ≤ p.degree := by
  refine Nat.le_of_lt_succ ((hrun.descends hlead).lt_of_mem (fun d hd => ?_) hs)
  obtain ⟨top, htop, rfl⟩ := Option.map_eq_some_iff.1 hd
  -- A term of the pruned dividend is a term of the dividend.
  have hlt := exponent_lt_bound (mem_of_mem_filter (mem_of_leadingTerm? htop))
  exact Nat.lt_of_lt_of_le hlt (bound_le_degree_add_one p)

/-- Division never leaves the words that the exponents of the dividend fit into. -/
theorem checkedDivide_of_lt {p : Poly K} (h : ∀ t ∈ p.terms, t.exponent < capacity)
    (divisor : Poly K) : p.checkedDivide divisor = .ok (p.divide divisor) := by
  have hfits : p.prune.bound ≤ capacity :=
    bound_le_of_forall fun t ht => h t (mem_of_mem_filter ht)
  unfold checkedDivide
  split
  · rename_i hnone
    rw [divide_eq_none_iff.2 (leadingTerm?_prune_eq_none_iff.1 hnone)]
  · rename_i lead hlead
    rw [divide_of_leadingTerm? p hlead,
      checkedReduce_of_reduction hlead (reduction_reduce _ _ hlead _ _) hfits]
    rfl

end Poly

end PolyCalc
