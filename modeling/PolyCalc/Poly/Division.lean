import PolyCalc.Poly.Arithmetic

/-!
# Long Division

Division with remainder. Each step divides the leading term of the remainder by
that of the divisor, adds the quotient term to the quotient, and subtracts the
divisor multiplied by it. The difference should have lost its leading term, but
rounding may leave something there: it is recorded as the step's residue and
removed. So the degree of the remainder falls with every step for arbitrary
coefficients, and the recursion ends on that measure; exactness plays no part.

The operands are pruned first, since a stored zero must not pose as a leading
term. A divisor without any other term is the only cause of failure.

A program that is built for debugging may assert that the residue is within the
rounding error of the leading term, and end where it is not, as when a quotient term
underflows. Divisions are free of such assertions here, and what is proved of them is
meant for programs that are built without.

## Main definitions

* `DivisionStep`: What one step did.
* `Division`: Quotient, remainder and steps of a division.
* `Poly.divide`: Division with remainder.
* `Poly.bound`: The number of exponents up to the highest stored one.

## Theorems

* `Poly.exponent_le_of_mem_products_monomial`,
  `Poly.exponent_le_of_mem_multiply_monomial`: A shifted divisor stays within the
  shifted degree.
* `Poly.bound_reduceStep_lt`: A step lowers the bound of the remainder.
-/

namespace PolyCalc

/-- One step of a long division. -/
structure DivisionStep (K : Type) where
  /-- The degree of the remainder before the step. -/
  degreeBefore : Nat
  /-- The degree of the remainder after the step, if a term is left. -/
  degreeAfter : Option Nat
  /-- The term accumulated onto the quotient. -/
  quotientTerm : Term K
  /-- What the subtraction left at `degreeBefore`. -/
  residue : K
deriving DecidableEq, Repr

/-- The outcome of a long division. -/
structure Division (K : Type) where
  quotient : Poly K
  remainder : Poly K
  /-- The steps in the order in which they were made. -/
  steps : List (DivisionStep K)

namespace Poly

variable {K : Type}

/-- The number of exponents up to the highest stored one. -/
def bound (p : Poly K) : Nat :=
  match p.leadingTerm? with
  | none => 0
  | some t => t.exponent + 1

theorem exponent_le_of_leadingTerm? {p : Poly K} {lead t : Term K}
    (hlead : p.leadingTerm? = some lead) (ht : t ∈ p.terms) : t.exponent ≤ lead.exponent := by
  obtain ⟨init, hinit⟩ := List.getLast?_eq_some_iff.1 hlead
  have hsorted := p.ascending
  rw [hinit] at ht hsorted
  rcases List.mem_append.1 ht with h | h
  · exact Nat.le_of_lt ((List.pairwise_append.1 hsorted).2.2 t h lead (List.mem_singleton.2 rfl))
  · exact Nat.le_of_eq (congrArg Term.exponent (List.mem_singleton.1 h))

theorem bound_le_of_forall {p : Poly K} {n : Nat} (h : ∀ t ∈ p.terms, t.exponent < n) :
    p.bound ≤ n := by
  rw [bound]
  split
  · exact Nat.zero_le n
  · rename_i t ht
    exact h t (List.mem_of_getLast? ht)

variable [Coefficient K]

theorem exponent_of_mem_accumulateAll {terms : List (Term K)} {p : Poly K} {t : Term K}
    (h : t ∈ (p.accumulateAll terms).terms) :
    (∃ s ∈ p.terms, s.exponent = t.exponent) ∨ ∃ s ∈ terms, s.exponent = t.exponent := by
  induction terms generalizing p with
  | nil => exact .inl ⟨t, h, rfl⟩
  | cons new rest ih =>
    rcases ih h with ⟨s, hs, he⟩ | ⟨s, hs, he⟩
    · rcases exponent_of_mem_accumulateTerms hs with hn | ⟨u, hu, hue⟩
      · exact .inr ⟨new, List.mem_cons_self, by omega⟩
      · exact .inl ⟨u, hu, by omega⟩
    · exact .inr ⟨s, List.mem_cons_of_mem _ hs, he⟩

theorem exponent_le_of_mem_products_monomial {divisor : Poly K} {lead factor t : Term K}
    (hlead : divisor.leadingTerm? = some lead) (ht : t ∈ (monomial factor).products divisor) :
    t.exponent ≤ factor.exponent + lead.exponent := by
  obtain ⟨f, hf, ht⟩ := List.mem_flatMap.1 ht
  obtain ⟨u, hu, rfl⟩ := List.mem_map.1 ht
  have hle := exponent_le_of_leadingTerm? hlead hu
  have hfe : f = factor := List.mem_singleton.1 hf
  subst hfe
  exact Nat.add_le_add_left hle _

theorem exponent_le_of_mem_multiply_monomial {divisor : Poly K} {lead factor t : Term K}
    (hlead : divisor.leadingTerm? = some lead)
    (ht : t ∈ ((monomial factor).multiply divisor).terms) :
    t.exponent ≤ factor.exponent + lead.exponent := by
  rcases exponent_of_mem_accumulateAll (mem_of_mem_filter ht) with ⟨s, hs, _⟩ | ⟨s, hs, he⟩
  · cases hs
  · exact he ▸ exponent_le_of_mem_products_monomial hlead hs

/-- The difference left by one step, before its leading term is removed. -/
def difference (divisor : Poly K) (factor : Term K) (remainder : Poly K) : Poly K :=
  remainder.subtract ((monomial factor).multiply divisor)

theorem bound_reduceStep_lt {divisor remainder : Poly K} {lead top factor : Term K}
    (hlead : divisor.leadingTerm? = some lead) (htop : remainder.leadingTerm? = some top)
    (hfactor : factor.exponent + lead.exponent = top.exponent) :
    ((difference divisor factor remainder).erase top.exponent).bound < remainder.bound := by
  have hbound : remainder.bound = top.exponent + 1 := by rw [bound, htop]
  rw [hbound]
  refine Nat.lt_succ_of_le (bound_le_of_forall fun t ht => ?_)
  obtain ⟨ht, hne⟩ := List.mem_filter.1 ht
  have hne : t.exponent ≠ top.exponent := by simpa using hne
  rcases exponent_of_mem_accumulateAll (mem_of_mem_filter ht) with ⟨s, hs, he⟩ | ⟨s, hs, he⟩
  · have := exponent_le_of_leadingTerm? htop hs
    omega
  · obtain ⟨u, hu, rfl⟩ := List.mem_map.1 hs
    have := exponent_le_of_mem_multiply_monomial hlead hu
    simp only at he
    omega

/-- The loop of the division by a divisor with the given leading term: `quotient`
    and `remainder` are what the steps made so far have left. -/
def reduce (divisor : Poly K) (lead : Term K) (hlead : divisor.leadingTerm? = some lead)
    (quotient remainder : Poly K) : Division K :=
  match _htop : remainder.leadingTerm? with
  | none => ⟨quotient.prune, remainder, []⟩
  | some top =>
    if _hdegree : top.exponent < lead.exponent then ⟨quotient.prune, remainder, []⟩
    else
      let factor : Term K :=
        ⟨top.exponent - lead.exponent, top.coefficient / lead.coefficient⟩
      let next := difference divisor factor remainder
      let rest := next.erase top.exponent
      let step : DivisionStep K :=
        ⟨top.exponent, rest.leadingTerm?.map Term.exponent, factor,
          next.coefficient top.exponent⟩
      let division := reduce divisor lead hlead (quotient.accumulate factor) rest
      { division with steps := step :: division.steps }
termination_by remainder.bound
decreasing_by
  exact bound_reduceStep_lt hlead _htop (Nat.sub_add_cancel (Nat.le_of_not_lt _hdegree))

/-- Division with remainder; there is no quotient by a divisor whose stored
    coefficients are all zero. -/
def divide (p divisor : Poly K) : Option (Division K) :=
  match hlead : divisor.prune.leadingTerm? with
  | none => none
  | some lead => some (reduce divisor.prune lead hlead empty p.prune)

end Poly

/-- Does the divisor divide the dividend evenly? -/
def Division.isExact {K : Type} [Coefficient K] (d : Division K) : Bool := d.remainder.isZero

end PolyCalc
