import PolyCalc.Proofs.Poly.Pointwise

/-!
# What a Division Leaves Untouched

Every step of a division makes a new remainder, by a difference that goes through all of
its terms, and nothing is known about the numbers that come out. What can be known is
where they come out. A step subtracts the divisor multiplied by the quotient term, so it
reaches the exponents to which the quotient term lifts the divisor. At any other exponent
nothing is subtracted and nothing is pruned, since no zero is stored there to begin with,
and the leading exponent, which is erased, is reached in any case.

So what no step reaches is found in the end as it was in the beginning. This needs no law
of coefficients at all: the coefficient is not even added to.

## Main definitions

* `DivisionStep.Reaches`: An exponent to which a step lifts the divisor.

## Theorems

* `get?_subtract_of_not_mem`: A difference keeps what is not subtracted from.
* `get?_rest`: A step keeps what it does not reach.
* `zeroFree_rest`: A step leaves no zero.
* `Reduction.get?_remainder`: So does a run.
* `divide_leaves_unreached`: So does a division.
-/

namespace PolyCalc

/-- A step reaches the exponents to which its quotient term lifts the divisor. -/
def DivisionStep.Reaches {K : Type} (divisor : Poly K) (e : Nat) (s : DivisionStep K) : Prop :=
  ∃ d ∈ divisor.exponents, s.quotientTerm.exponent + d = e

namespace Poly

variable {K : Type} [Coefficient K] {e : Nat}

/-- A difference keeps what is stored at an exponent without a term to subtract. -/
theorem get?_subtract_of_not_mem {p q : Poly K} (hp : p.ZeroFree) (he : e ∉ q.exponents) :
    (p.subtract q).get? e = p.get? e := by
  have hnone : q.neg.get? e = none := by
    rw [get?_eq_none_iff, exponents_neg]
    exact he
  have hsame : (p.accumulateAll q.neg.terms).get? e = p.get? e := by
    rw [get?_accumulateAll, coefficientsAt_terms, hnone]
    rfl
  -- The pruning finds no zero at the exponent, as it would find none in `p` itself.
  rw [subtract, get?_prune, hsame, ← get?_prune, prune_eq_self hp]

section Runs

variable {divisor quotient remainder : Poly K} {lead top : Term K} {result : Division K}

/-- A step finds the leading term of the remainder where it lifts that of the divisor. -/
theorem reaches_top (hlead : divisor.leadingTerm? = some lead)
    (hdegree : lead.exponent ≤ top.exponent) :
    (record divisor lead top remainder).Reaches divisor top.exponent :=
  ⟨lead.exponent, mem_exponents.2 ⟨lead, mem_of_leadingTerm? hlead, rfl⟩,
    Nat.sub_add_cancel hdegree⟩

/-- A step keeps what it does not reach. -/
theorem get?_rest (hlead : divisor.leadingTerm? = some lead)
    (hdegree : lead.exponent ≤ top.exponent) (hfree : remainder.ZeroFree)
    (hout : ¬(record divisor lead top remainder).Reaches divisor e) :
    (rest divisor lead top remainder).get? e = remainder.get? e := by
  have hne : e ≠ top.exponent := by
    rintro rfl
    exact hout (reaches_top hlead hdegree)
  have hproduct : e ∉ ((monomial (factor lead top)).multiply divisor).exponents :=
    fun hmem => hout (mem_exponents_multiply_monomial hmem)
  rw [rest, get?_erase, if_neg hne, difference]
  exact get?_subtract_of_not_mem hfree hproduct

/-- No zero is stored in what a step leaves. -/
theorem zeroFree_rest : (rest divisor lead top remainder).ZeroFree := (zeroFree_prune _).filter _

/-- A run keeps what none of its steps reaches. -/
theorem Reduction.get?_remainder (hlead : divisor.leadingTerm? = some lead)
    (hrun : Reduction divisor lead quotient remainder result) (hfree : remainder.ZeroFree)
    (hout : ∀ s ∈ result.steps, ¬s.Reaches divisor e) :
    result.remainder.get? e = remainder.get? e := by
  induction hrun with
  | stop quotient remainder hbelow => rfl
  | step quotient remainder top result htop hdegree hrest ih =>
      have hfirst := hout _ List.mem_cons_self
      have hlater : ∀ s ∈ result.steps, ¬s.Reaches divisor e :=
        fun s hs => hout s (List.mem_cons_of_mem _ hs)
      exact (ih zeroFree_rest hlater).trans (get?_rest hlead hdegree hfree hfirst)

end Runs

/-- Division by a divisor with a non-zero coefficient leaves the pruned dividend as it is
    at every exponent that no step reaches: the remainder has the same coefficient there,
    and it stores a term there exactly if the pruned dividend does. -/
theorem divide_leaves_unreached (p divisor : Poly K)
    (hdivisor : ∃ t ∈ divisor.terms, Coefficient.isZero t.coefficient = false) :
    ∃ result, p.divide divisor = some result
      ∧ ∀ e, (∀ s ∈ result.steps, ¬s.Reaches divisor.prune e) →
        result.remainder.coefficient e = p.prune.coefficient e
          ∧ (e ∈ result.remainder.exponents ↔ e ∈ p.prune.exponents) := by
  rcases exists_divide p hdivisor with ⟨result, hresult⟩
  rcases reduction_of_divide hresult with ⟨lead, hlead, hrun⟩
  refine ⟨result, hresult, fun e hout => ?_⟩
  have hsame := hrun.get?_remainder hlead (zeroFree_prune p) hout
  constructor
  · rw [coefficient, coefficient, hsame]
  · rw [mem_exponents_iff, mem_exponents_iff, hsame]

/-- The constant term of `1e300 x ^ 6 + 5 x ^ 2 + 7`, divided by `1e-300 x ^ 3 + x` with a
    zero in front. The quotient is infinite, and the other terms go with it, but no power of
    `x` lifts the divisor to a constant. -/
theorem divide_leaves_unreached_constant :
    (∃ t ∈ (ofTerms [⟨5, 0⟩, ⟨3, 1e-300⟩, ⟨1, 1⟩] : Poly Float).terms,
        Coefficient.isZero t.coefficient = false)
      ∧ ∃ result,
        (ofTerms [⟨6, 1e300⟩, ⟨2, 5⟩, ⟨0, 7⟩] : Poly Float).divide
            (ofTerms [⟨5, 0⟩, ⟨3, 1e-300⟩, ⟨1, 1⟩]) = some result
          ∧ (∀ s ∈ result.steps,
            ¬s.Reaches (ofTerms [⟨5, 0⟩, ⟨3, 1e-300⟩, ⟨1, 1⟩] : Poly Float).prune 0)
          ∧ result.remainder.coefficient 0 = 7 ∧ 0 ∈ result.remainder.exponents := by
  have hterm : ∃ t ∈ (ofTerms [⟨5, 0⟩, ⟨3, 1e-300⟩, ⟨1, 1⟩] : Poly Float).terms,
      Coefficient.isZero t.coefficient = false := by
    decide +kernel
  have hconstant : (ofTerms [⟨6, 1e300⟩, ⟨2, 5⟩, ⟨0, 7⟩] : Poly Float).prune.get? 0 = some 7 := by
    decide +kernel
  have hlow : ∀ d ∈ (ofTerms [⟨5, 0⟩, ⟨3, 1e-300⟩, ⟨1, 1⟩] : Poly Float).prune.exponents,
      0 < d := by
    decide +kernel
  rcases divide_leaves_unreached _ _ hterm with ⟨result, hresult, hkept⟩
  have hout : ∀ s ∈ result.steps,
      ¬s.Reaches (ofTerms [⟨5, 0⟩, ⟨3, 1e-300⟩, ⟨1, 1⟩] : Poly Float).prune 0 := by
    rintro s - ⟨d, hd, hsum⟩
    have hpos := hlow d hd
    omega
  rcases hkept 0 hout with ⟨hcoefficient, hstored⟩
  refine ⟨hterm, result, hresult, hout, ?_, ?_⟩
  · rw [hcoefficient, coefficient_of_get? hconstant]
  · rw [hstored, mem_exponents_iff]
    exact ⟨7, hconstant⟩

end Poly

end PolyCalc
