import PolyCalc.Proofs.Poly.NormalForm

/-!
# Runs of a Division

The loop of a division as a relation. `Reduction` has one constructor for the
end of the loop and one for a step, and `reduction_reduce` says that the loop
is such a run. What holds of every run is then proved by induction on it,
without a look at the recursion or at its termination.

Nothing is assumed about coefficients here. Rounding may leave anything at the
leading exponent of a difference, infinities and the absence of a number
included, and a zero may be stored in an operand. The only facts that count are
about exponents: the divisor multiplied by a quotient term reaches up to the
leading exponent of the remainder and no further, a difference stores no
exponent that neither operand stores, and the leading exponent is removed
outright. So the degrees that the steps pass through fall strictly, and the
number of steps is bounded by the number of degrees there are.

## Main definitions

* `factor`: The quotient term of a step.
* `rest`: The remainder that a step leaves.
* `record`: What a step tells about itself.
* `Reduction`: The runs of the loop.
* `Descends`: Steps that pass from one degree to another, always downwards.

## Theorems

* `reduction_reduce`: The loop is a run.
* `bound_rest_le`: A step leaves only exponents below the leading one.
* `Reduction.length_steps_le`: There are no more steps than degrees to pass.
* `Reduction.descends`: The degrees fall from step to step.
* `Reduction.exponent_remainder_lt`: The remainder ends below the divisor.
* `Reduction.exponent_quotient_le`: The exponents of the quotient.
* `Reduction.zeroFree_quotient`, `Reduction.zeroFree_remainder`: No zero term is
  stored in an outcome.
* `divide_eq_none_iff`, `exists_divide`: Division fails exactly for zero divisors.
* `divide_terminates_below_divisor`: What division does for all operands.
-/

namespace PolyCalc

namespace Poly

variable {K : Type} [Coefficient K]

/-! ## One step -/

/-- The term that a step adds to the quotient: the quotient of the leading terms. -/
def factor (lead top : Term K) : Term K :=
  ⟨top.exponent - lead.exponent, top.coefficient / lead.coefficient⟩

/-- The remainder that a step leaves: the difference without its leading term. -/
def rest (divisor : Poly K) (lead top : Term K) (remainder : Poly K) : Poly K :=
  (difference divisor (factor lead top) remainder).erase top.exponent

/-- What a step tells about itself. -/
def record (divisor : Poly K) (lead top : Term K) (remainder : Poly K) : DivisionStep K :=
  ⟨top.exponent, (rest divisor lead top remainder).leadingTerm?.map Term.exponent,
    factor lead top, (difference divisor (factor lead top) remainder).coefficient top.exponent⟩

/-- The runs of the loop by a divisor with a given leading term, from a quotient
    and a remainder to the outcome. A run ends when the remainder has no term
    that the leading term could divide. -/
inductive Reduction (divisor : Poly K) (lead : Term K) : Poly K → Poly K → Division K → Prop where
  | stop (quotient remainder : Poly K) (hbelow : remainder.bound ≤ lead.exponent) :
      Reduction divisor lead quotient remainder ⟨quotient.prune, remainder, []⟩
  | step (quotient remainder : Poly K) (top : Term K) (result : Division K)
      (htop : remainder.leadingTerm? = some top) (hdegree : lead.exponent ≤ top.exponent)
      (hrest : Reduction divisor lead (quotient.accumulate (factor lead top))
        (rest divisor lead top remainder) result) :
      Reduction divisor lead quotient remainder
        { result with steps := record divisor lead top remainder :: result.steps }

/-- The loop is a run. -/
theorem reduction_reduce (divisor : Poly K) (lead : Term K)
    (hlead : divisor.leadingTerm? = some lead) (quotient remainder : Poly K) :
    Reduction divisor lead quotient remainder (reduce divisor lead hlead quotient remainder) := by
  induction quotient, remainder using reduce.induct divisor lead hlead with
  | case1 quotient remainder hnone =>
      have hbelow : remainder.bound ≤ lead.exponent := by
        rw [bound_eq_zero_iff.2 (leadingTerm?_eq_none_iff.1 hnone)]
        exact Nat.zero_le _
      -- There is no leading term, so the loop ends with an empty remainder.
      rw [reduce]
      split
      · exact Reduction.stop quotient remainder hbelow
      · rename_i hsome
        rw [hnone] at hsome
        cases hsome
  | case2 quotient remainder top htop hlt =>
      have hbelow : remainder.bound ≤ lead.exponent := by
        rw [bound_of_leadingTerm? htop]
        exact hlt
      -- The leading term lies below that of the divisor.
      rw [reduce]
      split
      · exact Reduction.stop quotient remainder hbelow
      · rename_i hsome
        rw [htop] at hsome
        cases hsome
        rw [dif_pos hlt]
        exact Reduction.stop quotient remainder hbelow
  | case3 quotient remainder top htop hge _ _ _ ih =>
      rw [reduce]
      split
      · rename_i hnone
        rw [htop] at hnone
        cases hnone
      · rename_i hsome
        rw [htop] at hsome
        cases hsome
        rw [dif_neg hge]
        exact Reduction.step quotient remainder top _ htop (Nat.le_of_not_lt hge) ih

/-- A step removes the leading term, and all that it brings in lies below. -/
theorem bound_rest_le {divisor remainder : Poly K} {lead top : Term K}
    (hlead : divisor.leadingTerm? = some lead) (htop : remainder.leadingTerm? = some top)
    (hdegree : lead.exponent ≤ top.exponent) :
    (rest divisor lead top remainder).bound ≤ top.exponent := by
  -- The measure that ends the loop is the bound of the remainder.
  have hlt : (rest divisor lead top remainder).bound < remainder.bound :=
    bound_reduceStep_lt hlead htop (Nat.sub_add_cancel hdegree)
  rw [bound_of_leadingTerm? htop] at hlt
  exact Nat.le_of_lt_succ hlt

/-! ## Whole runs -/

variable {divisor quotient remainder : Poly K} {lead : Term K} {result : Division K}

/-- Steps that pass from one degree to another, or to the absence of any: each
    starts at the degree that the one before has reached, and ends below it. -/
def Descends : Option Nat → List (DivisionStep K) → Option Nat → Prop
  | start, [], stop => start = stop
  | start, s :: steps, stop =>
    start = some s.degreeBefore ∧ (∀ d ∈ s.degreeAfter, d < s.degreeBefore)
      ∧ Descends s.degreeAfter steps stop

/-- Each step costs the remainder a degree, so there are no more steps than
    degrees from that of the divisor upwards. -/
theorem Reduction.length_steps_le (hlead : divisor.leadingTerm? = some lead)
    (hrun : Reduction divisor lead quotient remainder result) :
    result.steps.length ≤ remainder.bound - lead.exponent := by
  induction hrun with
  | stop quotient remainder hbelow => exact Nat.zero_le _
  | step quotient remainder top result htop hdegree hrest ih =>
      -- The step itself is paid by the degree that the remainder loses.
      have hfall := bound_rest_le hlead htop hdegree
      rw [bound_of_leadingTerm? htop, List.length_cons]
      omega

theorem Reduction.descends (hlead : divisor.leadingTerm? = some lead)
    (hrun : Reduction divisor lead quotient remainder result) :
    Descends (remainder.leadingTerm?.map Term.exponent) result.steps
      (result.remainder.leadingTerm?.map Term.exponent) := by
  induction hrun with
  | stop quotient remainder hbelow => exact rfl
  | step quotient remainder top result htop hdegree hrest ih =>
      refine ⟨congrArg (Option.map Term.exponent) htop, ?_, ih⟩
      intro d hd
      rcases Option.map_eq_some_iff.1 hd with ⟨t, ht, rfl⟩
      have hfall := bound_rest_le hlead htop hdegree
      rw [bound_of_leadingTerm? ht] at hfall
      exact hfall

theorem Reduction.exponent_remainder_lt (hrun : Reduction divisor lead quotient remainder result)
    {t : Term K} (ht : t ∈ result.remainder.terms) : t.exponent < lead.exponent := by
  induction hrun with
  | stop quotient remainder hbelow => exact Nat.lt_of_lt_of_le (exponent_lt_bound ht) hbelow
  | step quotient remainder top result htop hdegree hrest ih => exact ih ht

/-- No quotient term reaches further than the degree that the divisor has to be
    lifted to. -/
theorem Reduction.exponent_quotient_le {n : Nat} (hlead : divisor.leadingTerm? = some lead)
    (hrun : Reduction divisor lead quotient remainder result)
    (hremainder : remainder.bound ≤ n + 1)
    (hquotient : ∀ t ∈ quotient.terms, t.exponent + lead.exponent ≤ n)
    {t : Term K} (ht : t ∈ result.quotient.terms) : t.exponent + lead.exponent ≤ n := by
  induction hrun with
  | stop quotient remainder hbelow => exact hquotient t (mem_of_mem_filter ht)
  | step quotient remainder top result htop hdegree hrest ih =>
      have hfall := bound_rest_le hlead htop hdegree
      rw [bound_of_leadingTerm? htop] at hremainder
      refine ih (by omega) ?_ ht
      intro u hu
      -- A quotient term is the factor of this step or was there before.
      rcases exponent_of_mem_accumulateTerms hu with hnew | ⟨v, hv, hold⟩
      · have hfactor : (factor lead top).exponent + lead.exponent = top.exponent :=
          Nat.sub_add_cancel hdegree
        omega
      · rw [← hold]
        exact hquotient v hv

/-- A run ends with a pruned quotient. -/
theorem Reduction.zeroFree_quotient (hrun : Reduction divisor lead quotient remainder result) :
    result.quotient.ZeroFree := by
  induction hrun with
  | stop quotient remainder hbelow => exact zeroFree_prune quotient
  | step quotient remainder top result htop hdegree hrest ih => exact ih

/-- Differences are pruned, so no step brings a zero term into the remainder. -/
theorem Reduction.zeroFree_remainder (hrun : Reduction divisor lead quotient remainder result)
    (hremainder : remainder.ZeroFree) : result.remainder.ZeroFree := by
  induction hrun with
  | stop quotient remainder hbelow => exact hremainder
  | step quotient remainder top result htop hdegree hrest ih =>
      exact ih ((zeroFree_prune _).filter _)

/-! ## Division -/

/-- Division fails exactly if no coefficient of the divisor counts as non-zero. -/
theorem divide_eq_none_iff {p divisor : Poly K} :
    p.divide divisor = none ↔ ∀ t ∈ divisor.terms, Coefficient.isZero t.coefficient = true := by
  rw [← leadingTerm?_prune_eq_none_iff]
  unfold divide
  split
  · rename_i hnone
    exact ⟨fun _ => hnone, fun _ => rfl⟩
  · rename_i lead hlead
    refine ⟨fun hsome => ?_, fun hnone => ?_⟩
    · cases hsome
    · rw [hlead] at hnone
      cases hnone

theorem exists_divide (p : Poly K) {divisor : Poly K}
    (h : ∃ t ∈ divisor.terms, Coefficient.isZero t.coefficient = false) :
    ∃ result, p.divide divisor = some result := by
  obtain ⟨t, ht, hnonzero⟩ := h
  cases hresult : p.divide divisor with
  | none =>
      have hzero := divide_eq_none_iff.1 hresult t ht
      rw [hnonzero] at hzero
      cases hzero
  | some result => exact ⟨result, rfl⟩

theorem divide_of_leadingTerm? (p : Poly K) {divisor : Poly K} {lead : Term K}
    (hlead : divisor.prune.leadingTerm? = some lead) :
    p.divide divisor = some (reduce divisor.prune lead hlead empty p.prune) := by
  unfold divide
  split
  · rename_i hnone
    rw [hlead] at hnone
    cases hnone
  · rename_i hsome
    rw [hlead] at hsome
    cases hsome
    rfl

/-- A division that succeeds is a run by the pruned divisor on the pruned dividend. -/
theorem reduction_of_divide {p divisor : Poly K} (h : p.divide divisor = some result) :
    ∃ lead, divisor.prune.leadingTerm? = some lead
      ∧ Reduction divisor.prune lead empty p.prune result := by
  cases hlead : divisor.prune.leadingTerm? with
  | none =>
      rw [divide_eq_none_iff.2 (leadingTerm?_prune_eq_none_iff.1 hlead)] at h
      cases h
  | some lead =>
      rw [divide_of_leadingTerm? p hlead] at h
      cases h
      exact ⟨lead, rfl, reduction_reduce _ _ hlead _ _⟩

/-- Division fails, with a zero divisor for its only cause, exactly if every
    stored coefficient of the divisor counts as zero. Otherwise let `lead` be the
    term of the divisor with the greatest exponent among those that do not. There
    are at most as many steps as degrees from that of the divisor up to that of
    the pruned dividend, and none for a dividend without a term. The steps pass
    from the degree of the pruned dividend to that of the remainder, strictly
    downwards at each of them. Every term of the remainder lies below the degree
    of the divisor, and the exponents of the quotient do not exceed the
    difference of the degrees. -/
theorem divide_terminates_below_divisor (p divisor : Poly K) :
    (p.divide divisor = none
        ↔ ∀ t ∈ divisor.terms, Coefficient.isZero t.coefficient = true)
      ∧ ∀ result, p.divide divisor = some result →
        ∃ lead ∈ divisor.terms, Coefficient.isZero lead.coefficient = false
          ∧ (∀ t ∈ divisor.terms, Coefficient.isZero t.coefficient = false →
            t.exponent ≤ lead.exponent)
          ∧ (p.prune.terms = [] → result.steps = [])
          ∧ result.steps.length ≤ p.prune.degree + 1 - lead.exponent
          ∧ Descends (p.prune.leadingTerm?.map Term.exponent) result.steps
            (result.remainder.leadingTerm?.map Term.exponent)
          ∧ (∀ t ∈ result.remainder.terms, t.exponent < lead.exponent)
          ∧ ∀ t ∈ result.quotient.terms, t.exponent + lead.exponent ≤ p.prune.degree := by
  refine ⟨divide_eq_none_iff, ?_⟩
  intro result hresult
  rcases reduction_of_divide hresult with ⟨lead, hlead, hrun⟩
  rcases mem_prune.1 (mem_of_leadingTerm? hlead) with ⟨hmem, hnonzero⟩
  have hlength := hrun.length_steps_le hlead
  have hbound := bound_le_degree_add_one p.prune
  refine ⟨lead, hmem, hnonzero, ?_, ?_, ?_, hrun.descends hlead,
    fun t ht => hrun.exponent_remainder_lt ht, ?_⟩
  · intro t ht hzero
    exact exponent_le_of_leadingTerm? hlead (mem_prune.2 ⟨ht, hzero⟩)
  · intro hnil
    rw [bound_eq_zero_iff.2 hnil, Nat.zero_sub] at hlength
    exact List.length_eq_zero_iff.1 (Nat.le_zero.1 hlength)
  · omega
  · intro t ht
    exact hrun.exponent_quotient_le hlead hbound (by intro u hu; cases hu) ht

end Poly

end PolyCalc
