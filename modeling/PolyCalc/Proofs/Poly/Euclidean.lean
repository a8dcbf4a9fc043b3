import PolyCalc.Proofs.Poly.Exact
import PolyCalc.Proofs.Poly.Reduction
import Mathlib.Tactic.LinearCombination

/-!
# Exact Division Is Euclidean Division

With exact coefficients the leading term of each difference cancels. A step then
records the residue zero, and the removal of the leading term, which makes the
loop terminate for coefficients of any kind, removes nothing. So no step loses
anything: divisor times quotient plus remainder stays what it was, from the
start of a run to its end.

Since the remainder ends below the divisor, the outcome is the one that
Euclidean division has. That it is the only one is the usual argument on
degrees, made in the polynomials of algebra: the difference of two remainders is
a multiple of the divisor of smaller degree, and only zero is that.

## Main definitions

* `IsEuclidean`: A quotient and a remainder of a dividend by a divisor.
* `IsExactDivision`: What exact division finds.

## Theorems

* `residue_eq_zero`: The leading term of a difference cancels.
* `toPolynomial_rest`: A step subtracts a multiple of the divisor.
* `Reduction.mul_add_eq`: A run keeps divisor times quotient plus remainder.
* `Reduction.residue_eq_zero`: All residues are zero.
* `IsEuclidean.unique`: Quotient and remainder are determined.
* `isExact_iff`: Even division is divisibility.
* `exists_isExactDivision`: Division finds quotient and remainder.
-/

namespace PolyCalc

namespace Poly

open Polynomial

variable {divisor quotient remainder : Poly ℚ} {lead : Term ℚ}

/-! ## Degrees -/

theorem coefficient_of_leadingTerm? {p : Poly ℚ} (h : p.leadingTerm? = some lead) :
    p.coefficient lead.exponent = lead.coefficient := by
  have hget : p.get? lead.exponent = some lead.coefficient :=
    get?_eq_some_iff.2 (mem_of_leadingTerm? h)
  unfold coefficient
  rw [hget, Option.getD_some]

theorem coefficient_eq_zero_of_bound_le {p : Poly ℚ} {e : ℕ} (h : p.bound ≤ e) :
    p.coefficient e = 0 := by
  have hnone : p.get? e = none := by
    rw [get?_eq_none_iff, exponents, List.mem_map]
    rintro ⟨t, ht, rfl⟩
    exact absurd (exponent_lt_bound ht) (Nat.not_lt.2 h)
  unfold coefficient
  rw [hnone]
  rfl

theorem degree_toPolynomial_lt {p : Poly ℚ} {n : ℕ} (h : p.bound ≤ n) :
    p.toPolynomial.degree < n := by
  rw [degree_lt_iff_coeff_zero]
  intro e he
  rw [coeff_toPolynomial, coefficient_eq_zero_of_bound_le (le_trans h he)]

theorem degree_toPolynomial {p : Poly ℚ} (h : p.leadingTerm? = some lead)
    (hzero : lead.coefficient ≠ 0) : p.toPolynomial.degree = lead.exponent := by
  refine degree_eq_of_le_of_coeff_ne_zero ?_ ?_
  · rw [degree_le_iff_coeff_zero]
    intro e he
    have he : lead.exponent < e := by exact_mod_cast he
    rw [coeff_toPolynomial, coefficient_eq_zero_of_bound_le]
    rw [bound_of_leadingTerm? h]
    exact he
  · rw [coeff_toPolynomial, coefficient_of_leadingTerm? h]
    exact hzero

/-! ## One step -/

theorem toPolynomial_difference (f : Term ℚ) :
    (difference divisor f remainder).toPolynomial
      = remainder.toPolynomial
        - Polynomial.monomial f.exponent f.coefficient * divisor.toPolynomial := by
  rw [difference, toPolynomial_subtract, toPolynomial_multiply, toPolynomial_monomial]

theorem residue_eq_zero {top : Term ℚ} (hlead : divisor.leadingTerm? = some lead)
    (hzero : lead.coefficient ≠ 0) (htop : remainder.leadingTerm? = some top)
    (hdegree : lead.exponent ≤ top.exponent) :
    (difference divisor (factor lead top) remainder).coefficient top.exponent = 0 := by
  have hexponent : lead.exponent + (factor lead top).exponent = top.exponent :=
    Nat.add_sub_cancel' hdegree
  have hproduct : (factor lead top).coefficient * lead.coefficient = top.coefficient :=
    div_mul_cancel₀ _ hzero
  -- The leading term of the divisor is lifted to the leading term of the remainder.
  have hshift : (Polynomial.monomial (factor lead top).exponent (factor lead top).coefficient
      * divisor.toPolynomial).coeff top.exponent = top.coefficient := by
    rw [← hexponent, coeff_monomial_mul, coeff_toPolynomial, coefficient_of_leadingTerm? hlead,
      hproduct]
  rw [← coeff_toPolynomial, toPolynomial_difference, coeff_sub, hshift, coeff_toPolynomial,
    coefficient_of_leadingTerm? htop, sub_self]

theorem toPolynomial_rest {top : Term ℚ} (hlead : divisor.leadingTerm? = some lead)
    (hzero : lead.coefficient ≠ 0) (htop : remainder.leadingTerm? = some top)
    (hdegree : lead.exponent ≤ top.exponent) :
    (rest divisor lead top remainder).toPolynomial
      = remainder.toPolynomial
        - Polynomial.monomial (factor lead top).exponent (factor lead top).coefficient
          * divisor.toPolynomial := by
  have hresidue := residue_eq_zero hlead hzero htop hdegree
  rw [rest, toPolynomial_erase_of_coefficient_eq_zero hresidue, toPolynomial_difference]

/-! ## Whole runs -/

variable {result : Division ℚ}

theorem Reduction.mul_add_eq (hlead : divisor.leadingTerm? = some lead)
    (hzero : lead.coefficient ≠ 0) (hrun : Reduction divisor lead quotient remainder result) :
    result.quotient.toPolynomial * divisor.toPolynomial + result.remainder.toPolynomial
      = quotient.toPolynomial * divisor.toPolynomial + remainder.toPolynomial := by
  induction hrun with
  | stop quotient remainder hbelow => rw [toPolynomial_prune]
  | step quotient remainder top result htop hdegree hrest ih =>
      -- What the quotient gains, times the divisor, is what the remainder loses.
      rw [toPolynomial_accumulate, toPolynomial_rest hlead hzero htop hdegree] at ih
      rw [ih]
      ring

theorem Reduction.residue_eq_zero (hlead : divisor.leadingTerm? = some lead)
    (hzero : lead.coefficient ≠ 0) (hrun : Reduction divisor lead quotient remainder result) :
    ∀ s ∈ result.steps, s.residue = 0 := by
  induction hrun with
  | stop quotient remainder hbelow =>
      intro s hs
      cases hs
  | step quotient remainder top result htop hdegree hrest ih =>
      intro s hs
      rcases List.mem_cons.1 hs with rfl | hs
      · exact Poly.residue_eq_zero hlead hzero htop hdegree
      · exact ih s hs

/-! ## Euclidean division -/

/-- A quotient and a remainder: together with the divisor they give the dividend,
    and the remainder has no term or a smaller degree than the divisor. -/
structure IsEuclidean (p divisor quotient remainder : Poly ℚ) : Prop where
  sum : (quotient.multiply divisor).add remainder = p.prune
  degree : remainder.terms = [] ∨ remainder.degree < divisor.prune.degree

theorem IsEuclidean.mul_add_eq {p : Poly ℚ} (h : IsEuclidean p divisor quotient remainder) :
    quotient.toPolynomial * divisor.toPolynomial + remainder.toPolynomial = p.toPolynomial := by
  rw [← toPolynomial_multiply, ← toPolynomial_add, h.sum, toPolynomial_prune]

theorem IsEuclidean.degree_lt {p : Poly ℚ} (h : IsEuclidean p divisor quotient remainder)
    (hlead : divisor.prune.leadingTerm? = some lead) :
    remainder.toPolynomial.degree < lead.exponent := by
  refine degree_toPolynomial_lt ?_
  rcases h.degree with hnil | hlt
  · rw [bound_eq_zero_iff.2 hnil]
    exact Nat.zero_le _
  · rw [degree_of_leadingTerm? hlead] at hlt
    have hbound := bound_le_degree_add_one remainder
    omega

/-- Two remainders differ by a multiple of the divisor, which has a smaller degree
    than the divisor and therefore is zero. -/
theorem IsEuclidean.unique {p quotient' remainder' : Poly ℚ}
    (hlead : divisor.prune.leadingTerm? = some lead)
    (h : IsEuclidean p divisor quotient remainder)
    (h' : IsEuclidean p divisor quotient' remainder')
    (hq : quotient.ZeroFree) (hr : remainder.ZeroFree)
    (hq' : quotient'.ZeroFree) (hr' : remainder'.ZeroFree) :
    quotient = quotient' ∧ remainder = remainder' := by
  have hzero : lead.coefficient ≠ 0 :=
    isZero_eq_false_iff.1 (zeroFree_prune divisor lead (mem_of_leadingTerm? hlead))
  have hdegree : divisor.toPolynomial.degree = lead.exponent := by
    rw [← toPolynomial_prune, degree_toPolynomial hlead hzero]
  have hdivisor : divisor.toPolynomial ≠ 0 := by
    intro hcontra
    rw [hcontra, degree_zero] at hdegree
    exact absurd hdegree (by simp)
  -- Both pairs sum to the dividend, so the quotients carry the difference.
  have hmultiple : divisor.toPolynomial * (quotient.toPolynomial - quotient'.toPolynomial)
      = remainder'.toPolynomial - remainder.toPolynomial := by
    have hsum := h.mul_add_eq.trans h'.mul_add_eq.symm
    linear_combination hsum
  have hremainder : remainder'.toPolynomial - remainder.toPolynomial = 0 := by
    -- Both remainders lie below the divisor, and so does their difference.
    refine eq_zero_of_dvd_of_degree_lt ⟨_, hmultiple.symm⟩ ?_
    rw [hdegree]
    exact lt_of_le_of_lt (degree_sub_le _ _)
      (max_lt (h'.degree_lt hlead) (h.degree_lt hlead))
  rw [hremainder, mul_eq_zero, or_iff_right hdivisor, sub_eq_zero] at hmultiple
  exact ⟨eq_of_toPolynomial_eq hq hq' hmultiple,
    eq_of_toPolynomial_eq hr hr' (sub_eq_zero.1 hremainder).symm⟩

/-- The divisor divides evenly exactly if the dividend is a multiple of it. -/
theorem isExact_iff {p : Poly ℚ} (hlead : divisor.prune.leadingTerm? = some lead)
    (h : IsEuclidean p divisor result.quotient result.remainder)
    (hq : result.quotient.ZeroFree) (hr : result.remainder.ZeroFree) :
    result.isExact = true ↔ ∃ s : Poly ℚ, s.multiply divisor = p.prune := by
  rw [Division.isExact, hr.isZero_iff]
  constructor
  · intro hnil
    refine ⟨result.quotient, eq_of_toPolynomial_eq (zeroFree_prune _) (zeroFree_prune _) ?_⟩
    have hsum := h.mul_add_eq
    have hzero : result.remainder.toPolynomial = 0 := by
      rw [toPolynomial, hnil, termSum_nil]
    rwa [hzero, add_zero, ← toPolynomial_multiply, ← toPolynomial_prune p] at hsum
  · rintro ⟨s, hs⟩
    -- The other pair with the properties of quotient and remainder has no remainder.
    have hother : IsEuclidean p divisor s.prune empty := by
      refine ⟨?_, .inl rfl⟩
      rw [← hs]
      refine eq_of_toPolynomial_eq (zeroFree_prune _) (zeroFree_prune _) ?_
      rw [toPolynomial_add, toPolynomial_multiply, toPolynomial_multiply, toPolynomial_prune,
        toPolynomial_empty, add_zero]
    have hunique := h.unique hlead hother hq hr (zeroFree_prune s) (List.forall_mem_nil _)
    rw [hunique.2]
    rfl

/-- What exact division finds for a dividend and a divisor. -/
structure IsExactDivision (p divisor : Poly ℚ) (result : Division ℚ) : Prop where
  isEuclidean : IsEuclidean p divisor result.quotient result.remainder
  zeroFree_quotient : result.quotient.ZeroFree
  zeroFree_remainder : result.remainder.ZeroFree
  unique : ∀ quotient remainder : Poly ℚ, quotient.ZeroFree → remainder.ZeroFree →
    IsEuclidean p divisor quotient remainder →
    quotient = result.quotient ∧ remainder = result.remainder
  residue : ∀ s ∈ result.steps, s.residue = 0
  isExact : result.isExact = true ↔ ∃ s : Poly ℚ, s.multiply divisor = p.prune

/-- Over the rational numbers division by any divisor with a non-zero coefficient
    is Euclidean division: quotient and remainder are the only ones without zero
    terms, every leading term cancels, and the division is exact exactly if the
    dividend is a multiple of the divisor. -/
theorem exists_isExactDivision (p divisor : Poly ℚ)
    (hdivisor : ∃ t ∈ divisor.terms, t.coefficient ≠ 0) :
    ∃ result, p.divide divisor = some result ∧ IsExactDivision p divisor result := by
  rcases hdivisor with ⟨t, ht, hnonzero⟩
  cases hresult : p.divide divisor with
  | none => exact absurd (isZero_iff.1 (divide_eq_none_iff.1 hresult t ht)) hnonzero
  | some result =>
      rcases reduction_of_divide hresult with ⟨lead, hlead, hrun⟩
      have hzero : lead.coefficient ≠ 0 :=
        isZero_eq_false_iff.1 (zeroFree_prune divisor lead (mem_of_leadingTerm? hlead))
      have hq := hrun.zeroFree_quotient
      have hr := hrun.zeroFree_remainder (zeroFree_prune p)
      have heuclidean : IsEuclidean p divisor result.quotient result.remainder := by
        refine ⟨eq_of_toPolynomial_eq (zeroFree_prune _) (zeroFree_prune _) ?_, ?_⟩
        -- The run starts with no quotient and the whole dividend.
        · have hsum := hrun.mul_add_eq hlead hzero
          rw [toPolynomial_empty, zero_mul, zero_add, toPolynomial_prune] at hsum
          rw [toPolynomial_add, toPolynomial_multiply, hsum]
        · rw [degree_of_leadingTerm? hlead]
          cases htop : result.remainder.leadingTerm? with
          | none => exact .inl (leadingTerm?_eq_none_iff.1 htop)
          | some top =>
              rw [degree_of_leadingTerm? htop]
              exact .inr (hrun.exponent_remainder_lt (mem_of_leadingTerm? htop))
      refine ⟨result, rfl, heuclidean, hq, hr, ?_, hrun.residue_eq_zero hlead hzero,
        isExact_iff hlead heuclidean hq hr⟩
      intro quotient remainder hq' hr' hother
      exact hother.unique hlead heuclidean hq' hr' hq hr

/-- A divisor whose greatest stored exponent has the coefficient zero, and a
    dividend with a gap: `x ^ 3 + 1` by `0 x ^ 5 + 2 x + 1 / 3`. -/
theorem exists_isExactDivision_gap :
    (∃ t ∈ (ofTerms [⟨5, 0⟩, ⟨1, 2⟩, ⟨0, 1 / 3⟩] : Poly ℚ).terms, t.coefficient ≠ 0)
      ∧ ∃ result,
        (ofTerms [⟨3, 1⟩, ⟨0, 1⟩] : Poly ℚ).divide (ofTerms [⟨5, 0⟩, ⟨1, 2⟩, ⟨0, 1 / 3⟩])
          = some result
        ∧ IsExactDivision (ofTerms [⟨3, 1⟩, ⟨0, 1⟩]) (ofTerms [⟨5, 0⟩, ⟨1, 2⟩, ⟨0, 1 / 3⟩])
          result := by
  have hterm : ∃ t ∈ (ofTerms [⟨5, 0⟩, ⟨1, 2⟩, ⟨0, 1 / 3⟩] : Poly ℚ).terms,
      t.coefficient ≠ 0 := by
    decide +kernel
  exact ⟨hterm, exists_isExactDivision _ _ hterm⟩

end Poly

end PolyCalc
