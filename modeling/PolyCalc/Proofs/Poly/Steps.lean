import Mathlib.Data.List.Chain
import PolyCalc.Proofs.Poly.Reduction

/-!
# What the Steps of a Division Tell

Whoever watches a division sees its steps and nothing else, and from them the
whole course of it can be told: where the remainder starts, which degrees it
passes through, where it ends, and what the quotient is. Nothing is assumed about
the coefficients, so a step may skip degrees, and a quotient term may be zero and
vanish in the end.

`Descends` already links each step to the next one. What is added here is read off
the single step: its degree is never below that of the divisor, and the exponent of
its quotient term is the difference of the two. Since degrees fall, so do these
exponents, and each quotient term comes to stand at an exponent of its own. The
terms that are accumulated onto the quotient are the same in their order as the
terms that the steps show, whatever was in the quotient before.

## Main definitions

* `DivisionStep.IsAt`: A step by a divisor of a given degree.
* `IsAccount`: Steps that account for a division.

## Theorems

* `Descends.lt_of_mem`, `Descends.falls`: The degrees of all steps fall.
* `Descends.isChain`, `Descends.getLast?`: Each step starts where the last one ended.
* `exponents_ofTerms_of_falls`: Falling terms stand at exponents of their own.
* `Reduction.isAt`: Every step of a run stays at or above the divisor.
* `Reduction.quotient_eq`: The quotient is made of the terms of the steps.
* `Reduction.isAccount`: The steps of a run account for it.
* `divide_leaves_account`: The steps of a division account for it.
-/

namespace PolyCalc

/-- A step by a divisor of a given degree: its degree is not below that one, and
    its quotient term makes up the difference. -/
structure DivisionStep.IsAt {K : Type} (degree : Nat) (s : DivisionStep K) : Prop where
  degree_le : degree ≤ s.degreeBefore
  exponent_add : s.quotientTerm.exponent + degree = s.degreeBefore

namespace Poly

variable {K : Type}

/-! ## Falling degrees -/

section Degrees

variable {start stop : Option Nat} {steps : List (DivisionStep K)}

/-- All steps start below a number that the first one starts below. -/
theorem Descends.lt_of_mem (h : Descends start steps stop) {n : Nat}
    (hstart : ∀ d, start = some d → d < n) {s : DivisionStep K} (hs : s ∈ steps) :
    s.degreeBefore < n := by
  induction steps generalizing start n with
  | nil => cases hs
  | cons t steps ih =>
      obtain ⟨ht, hafter, hrest⟩ := h
      have hlt := hstart _ ht
      rcases List.mem_cons.1 hs with rfl | hs
      · exact hlt
      · exact ih hrest (fun d hd => Nat.lt_trans (hafter d hd) hlt) hs

theorem Descends.falls (h : Descends start steps stop) :
    steps.Pairwise fun s t => t.degreeBefore < s.degreeBefore := by
  induction steps generalizing start with
  | nil => exact List.Pairwise.nil
  | cons s steps ih =>
      obtain ⟨-, hafter, hrest⟩ := h
      exact List.pairwise_cons.2 ⟨fun t ht => hrest.lt_of_mem hafter ht, ih hrest⟩

theorem Descends.head? (h : Descends start steps stop) {s : DivisionStep K}
    (hs : steps.head? = some s) : start = some s.degreeBefore := by
  cases steps with
  | nil => cases hs
  | cons t steps =>
      cases hs
      exact h.1

theorem Descends.isChain (h : Descends start steps stop) :
    steps.IsChain fun s t => s.degreeAfter = some t.degreeBefore := by
  induction steps generalizing start with
  | nil => exact List.IsChain.nil
  | cons s steps ih =>
      obtain ⟨-, -, hrest⟩ := h
      exact List.isChain_cons.2 ⟨fun t ht => hrest.head? ht, ih hrest⟩

theorem Descends.getLast? (h : Descends start steps stop) {s : DivisionStep K}
    (hs : steps.getLast? = some s) : s.degreeAfter = stop := by
  induction steps generalizing start with
  | nil => cases hs
  | cons t steps ih =>
      obtain ⟨-, -, hrest⟩ := h
      cases steps with
      | nil =>
          cases hs
          exact hrest
      | cons u steps =>
          rw [List.getLast?_cons_cons] at hs
          exact ih hrest hs

/-- A step that is not the last one ends where another one starts. -/
theorem Descends.exists_of_mem_dropLast (h : Descends start steps stop) {s : DivisionStep K}
    (hs : s ∈ steps.dropLast) : ∃ t ∈ steps, s.degreeAfter = some t.degreeBefore := by
  induction steps generalizing start with
  | nil => cases hs
  | cons t steps ih =>
      obtain ⟨-, -, hrest⟩ := h
      cases steps with
      | nil => cases hs
      | cons u steps =>
          rw [List.dropLast_cons_cons] at hs
          rcases List.mem_cons.1 hs with rfl | hs
          · exact ⟨u, by simp, hrest.1⟩
          · obtain ⟨v, hv, hafter⟩ := ih hrest hs
            exact ⟨v, List.mem_cons_of_mem _ hv, hafter⟩

end Degrees

/-- A bound speaks of the degree only where there is a term. -/
theorem bound_le_iff {p : Poly K} {n : Nat} :
    p.bound ≤ n ↔ p.isEmpty = true ∨ p.degree < n := by
  rw [isEmpty, List.isEmpty_iff]
  cases hlead : p.leadingTerm? with
  | none =>
      have hnil := leadingTerm?_eq_none_iff.1 hlead
      have hbound := bound_eq_zero_iff.2 hnil
      exact iff_of_true (by omega) (.inl hnil)
  | some lead =>
      have hne : p.terms ≠ [] := List.ne_nil_of_mem (mem_of_leadingTerm? hlead)
      rw [bound_of_leadingTerm? hlead, degree_of_leadingTerm? hlead, or_iff_right hne]
      exact Nat.succ_le_iff

/-! ## Falling exponents -/

variable [Coefficient K]

/-- A term below all others is put in front of them, so terms with falling exponents
    are stored one by one, in reverse. -/
theorem exponents_accumulateAll_of_falls {p : Poly K} {terms : List (Term K)}
    (hfalls : terms.Pairwise fun s t => t.exponent < s.exponent)
    (hp : ∀ s ∈ p.terms, ∀ t ∈ terms, t.exponent < s.exponent) :
    (p.accumulateAll terms).exponents = (terms.map Term.exponent).reverse ++ p.exponents := by
  induction terms generalizing p with
  | nil => rfl
  | cons t terms ih =>
      rw [List.pairwise_cons] at hfalls
      have hterms : (p.accumulate t).terms = _ :=
        accumulateTerms_of_lt fun s hs => hp s hs t List.mem_cons_self
      have hbelow : ∀ s ∈ (p.accumulate t).terms, ∀ u ∈ terms, u.exponent < s.exponent := by
        intro s hs u hu
        rw [hterms] at hs
        rcases List.mem_cons.1 hs with rfl | hs
        · exact hfalls.1 u hu
        · exact hp s hs u (List.mem_cons_of_mem _ hu)
      calc ((p.accumulate t).accumulateAll terms).exponents
          = (terms.map Term.exponent).reverse ++ (p.accumulate t).exponents :=
            ih hfalls.2 hbelow
        _ = ((t :: terms).map Term.exponent).reverse ++ p.exponents := by
            rw [exponents, exponents, hterms]
            simp

theorem exponents_ofTerms_of_falls {terms : List (Term K)}
    (hfalls : terms.Pairwise fun s t => t.exponent < s.exponent) :
    (ofTerms terms).exponents = (terms.map Term.exponent).reverse := by
  have hempty : (empty : Poly K).exponents = [] := rfl
  rw [ofTerms, exponents_accumulateAll_of_falls hfalls (by intro s hs; cases hs), hempty,
    List.append_nil]

/-! ## Runs -/

section Runs

variable {divisor quotient remainder : Poly K} {lead : Term K} {result : Division K}

theorem Reduction.isAt (hrun : Reduction divisor lead quotient remainder result) :
    ∀ s ∈ result.steps, s.IsAt lead.exponent := by
  induction hrun with
  | stop quotient remainder hbelow =>
      intro s hs
      cases hs
  | step quotient remainder top result htop hdegree hrest ih =>
      intro s hs
      rcases List.mem_cons.1 hs with rfl | hs
      · exact ⟨hdegree, Nat.sub_add_cancel hdegree⟩
      · exact ih s hs

/-- A run accumulates the terms of its steps, in their order, and nothing else. -/
theorem Reduction.quotient_eq (hrun : Reduction divisor lead quotient remainder result) :
    result.quotient
      = (quotient.accumulateAll (result.steps.map DivisionStep.quotientTerm)).prune := by
  induction hrun with
  | stop quotient remainder hbelow => rfl
  | step quotient remainder top result htop hdegree hrest ih => exact ih

theorem Reduction.steps_eq_nil_iff (hrun : Reduction divisor lead quotient remainder result) :
    result.steps = [] ↔ remainder.bound ≤ lead.exponent := by
  cases hrun with
  | stop quotient remainder hbelow => exact ⟨fun _ => hbelow, fun _ => rfl⟩
  | step quotient remainder top result htop hdegree hrest =>
      rw [bound_of_leadingTerm? htop]
      simp only [List.cons_ne_nil, false_iff]
      omega

theorem Reduction.remainder_of_steps_eq_nil
    (hrun : Reduction divisor lead quotient remainder result) (h : result.steps = []) :
    result.remainder = remainder := by
  cases hrun with
  | stop quotient remainder hbelow => rfl
  | step quotient remainder top result htop hdegree hrest => cases h

end Runs

/-! ## Accounts -/

/-- The steps of a division account for its outcome. `dividend` is what was divided
    and `degree` the degree of the divisor. -/
structure IsAccount (dividend : Poly K) (degree : Nat) (result : Division K) : Prop where
  /-- There is no step exactly where there is nothing to divide. -/
  steps_eq_nil_iff : result.steps = [] ↔ dividend.isEmpty = true ∨ dividend.degree < degree
  /-- Without a step the whole dividend is left. -/
  of_steps_eq_nil : result.steps = [] → result.quotient = empty ∧ result.remainder = dividend
  /-- The first step starts at the degree of the dividend. -/
  first : ∀ s, result.steps.head? = some s → s.degreeBefore = dividend.degree
  /-- Each later step starts at the degree that the one before has reached. -/
  linked : result.steps.IsChain fun s t => s.degreeAfter = some t.degreeBefore
  /-- No step but the last one goes below the divisor. -/
  early : ∀ s ∈ result.steps.dropLast, ∃ d, s.degreeAfter = some d ∧ degree ≤ d
  /-- The last step goes below the divisor, to the leading exponent of the remainder
      or to nothing. -/
  last : ∀ s, result.steps.getLast? = some s →
    s.degreeAfter = result.remainder.leadingTerm?.map Term.exponent
      ∧ ∀ d, s.degreeAfter = some d → d < degree
  /-- Each quotient term makes up the difference of the degrees. -/
  isAt : ∀ s ∈ result.steps, s.IsAt degree
  /-- The exponents of the quotient terms fall strictly. -/
  falls : (result.steps.map fun s => s.quotientTerm.exponent).Pairwise fun d e => e < d
  /-- The quotient is made of the quotient terms and of nothing else. -/
  quotient : result.quotient = (ofTerms (result.steps.map DivisionStep.quotientTerm)).prune
  /-- Each step has an entry of its own among them. -/
  entries : (ofTerms (result.steps.map DivisionStep.quotientTerm)).size = result.steps.length

/-- The quotient terms keep their distance from the degrees, so they fall as these
    do. -/
theorem Reduction.falls {divisor quotient remainder : Poly K} {lead : Term K}
    {result : Division K} (hlead : divisor.leadingTerm? = some lead)
    (hrun : Reduction divisor lead quotient remainder result) :
    result.steps.Pairwise fun s t => t.quotientTerm.exponent < s.quotientTerm.exponent := by
  refine (hrun.descends hlead).falls.imp_of_mem fun {s t} hs ht hlt => ?_
  have hsAt := (hrun.isAt s hs).exponent_add
  have htAt := (hrun.isAt t ht).exponent_add
  omega

/-- The steps of a run that starts without a quotient account for it. -/
theorem Reduction.isAccount {divisor dividend : Poly K} {lead : Term K} {result : Division K}
    (hlead : divisor.leadingTerm? = some lead)
    (hrun : Reduction divisor lead empty dividend result) :
    IsAccount dividend lead.exponent result := by
  have hdescends := hrun.descends hlead
  have hfalls := hrun.falls hlead
  have hterms : (result.steps.map DivisionStep.quotientTerm).Pairwise
      fun s t => t.exponent < s.exponent := List.pairwise_map.2 hfalls
  constructor
  case steps_eq_nil_iff => rw [hrun.steps_eq_nil_iff, bound_le_iff]
  case of_steps_eq_nil =>
    intro hnil
    refine ⟨?_, hrun.remainder_of_steps_eq_nil hnil⟩
    rw [hrun.quotient_eq, hnil]
    rfl
  case first =>
    intro s hs
    obtain ⟨top, htop, he⟩ := Option.map_eq_some_iff.1 (hdescends.head? hs)
    rw [degree_of_leadingTerm? htop, he]
  case linked => exact hdescends.isChain
  case early =>
    intro s hs
    obtain ⟨t, ht, hafter⟩ := hdescends.exists_of_mem_dropLast hs
    exact ⟨_, hafter, (hrun.isAt t ht).degree_le⟩
  case last =>
    intro s hs
    have hstop := hdescends.getLast? hs
    refine ⟨hstop, fun d hd => ?_⟩
    -- What is reached in the end is an exponent of the remainder.
    obtain ⟨t, ht, rfl⟩ := Option.map_eq_some_iff.1 (hstop.symm.trans hd)
    exact hrun.exponent_remainder_lt (mem_of_leadingTerm? ht)
  case isAt => exact hrun.isAt
  case falls => exact List.pairwise_map.2 hfalls
  case quotient => exact hrun.quotient_eq
  case entries =>
    have hlength := congrArg List.length (exponents_ofTerms_of_falls hterms)
    simpa [exponents, size] using hlength

/-- Division by a divisor with a non-zero coefficient leaves steps that account for
    its outcome: for the degrees that the remainder passes through on its way down
    from the pruned dividend, for what is left in the end, and for every term of the
    quotient. -/
theorem divide_leaves_account (p divisor : Poly K)
    (hdivisor : ∃ t ∈ divisor.terms, Coefficient.isZero t.coefficient = false) :
    ∃ result, p.divide divisor = some result
      ∧ IsAccount p.prune divisor.prune.degree result := by
  obtain ⟨result, hresult⟩ := exists_divide p hdivisor
  obtain ⟨lead, hlead, hrun⟩ := reduction_of_divide hresult
  refine ⟨result, hresult, ?_⟩
  rw [degree_of_leadingTerm? hlead]
  exact hrun.isAccount hlead

/-- A divisor with a zero in front, and a quotient that no double is large enough
    for: `1e300 x ^ 2 + 1` by `0 x ^ 5 + 1e-300 x`. -/
theorem divide_leaves_account_infinite :
    (∃ t ∈ (ofTerms [⟨5, 0⟩, ⟨1, 1e-300⟩] : Poly Float).terms,
        Coefficient.isZero t.coefficient = false)
      ∧ ∃ result,
        (ofTerms [⟨2, 1e300⟩, ⟨0, 1⟩] : Poly Float).divide (ofTerms [⟨5, 0⟩, ⟨1, 1e-300⟩])
          = some result
        ∧ IsAccount (ofTerms [⟨2, 1e300⟩, ⟨0, 1⟩]).prune
          (ofTerms [⟨5, 0⟩, ⟨1, 1e-300⟩]).prune.degree result := by
  have hterm : ∃ t ∈ (ofTerms [⟨5, 0⟩, ⟨1, 1e-300⟩] : Poly Float).terms,
      Coefficient.isZero t.coefficient = false := by
    decide +kernel
  exact ⟨hterm, divide_leaves_account _ _ hterm⟩

end Poly

end PolyCalc
