import PolyCalc.Proofs.Poly.Frame
import PolyCalc.Proofs.Poly.Steps

/-!
# Division by a Single Term

In general a division of doubles is approximate: each step rounds, and what it leaves in
the remainder is what the next step works on. A divisor with a single term leaves no room
for this. Its only term is lifted to the leading exponent of the remainder, which is erased
whatever comes out there, and no other exponent is reached. So a step amounts to taking the
last term off the list, and the terms at or above the divisor go one after the other, from
the last one down, while those below it stay as they are.

The quotient is made of the quotients of these terms. They are accumulated onto nothing,
each at an exponent of its own, so no two of them meet. Zeros among them are lost in the
end, where a quotient was too small for a double, but infinities and the absence of a number
stay.

Other zeros may be stored in the divisor, since the pruned divisor is what divides.

## Main definitions

* `HasSingleTerm`: A polynomial with one term that is not zero.
* `quotients`: The quotients of the terms that a single term can divide.
* `IsSplit`: A division that splits the dividend.

## Theorems

* `terms_eq_erase_append`: The leading term is the last one.
* `HasSingleTerm.prune_eq`: Pruning leaves the single term.
* `rest_monomial`: A step takes off the leading term.
* `Reduction.terms_remainder`: What is left lies below the divisor.
* `Reduction.quotientTerms`: Each other term is divided in a step of its own.
* `prune_ofTerms_reverse`: Terms at exponents of their own come together as they are.
* `Reduction.isSplit`: A run splits the dividend.
* `divide_splits_at_single_term`: So does a division.
-/

namespace PolyCalc

namespace Poly

variable {K : Type}

/-- The leading term is the last one, and erasing its exponent takes it off. -/
theorem terms_eq_erase_append {p : Poly K} {top : Term K}
    (htop : p.leadingTerm? = some top) :
    p.terms = (p.erase top.exponent).terms ++ [top] := by
  rcases List.getLast?_eq_some_iff.1 htop with ⟨init, hinit⟩
  have hascending := p.ascending
  rw [hinit, List.pairwise_append] at hascending
  have hkept : (init.filter fun t => t.exponent ≠ top.exponent) = init := by
    refine List.filter_eq_self.2 fun t ht => ?_
    have hlt := hascending.2.2 t ht top (List.mem_singleton.2 rfl)
    simp only [ne_eq, decide_not, Bool.not_eq_true', decide_eq_false_iff_not]
    omega
  have herased : (p.erase top.exponent).terms = init := by
    change p.terms.filter _ = init
    rw [hinit, List.filter_append, hkept]
    simp
  rw [herased, hinit]

variable [Coefficient K]

/-- A polynomial with one term that is not zero. Zeros may be stored beside it. -/
structure HasSingleTerm (p : Poly K) (t : Term K) : Prop where
  mem : t ∈ p.terms
  nonzero : Coefficient.isZero t.coefficient = false
  others : ∀ s ∈ p.terms, s.exponent ≠ t.exponent → Coefficient.isZero s.coefficient = true

/-- Pruning leaves the single term and nothing else. -/
theorem HasSingleTerm.prune_eq {p : Poly K} {t : Term K} (h : p.HasSingleTerm t) :
    p.prune = monomial t := by
  refine eq_of_terms_eq (eq_of_mem_iff p.prune.ascending (monomial t).ascending fun s => ?_)
  rw [mem_prune, monomial, List.mem_singleton]
  constructor
  · rintro ⟨hs, hnonzero⟩
    by_cases he : s.exponent = t.exponent
    · exact eq_of_exponent_eq p.ascending hs h.mem he
    · rw [h.others s hs he] at hnonzero
      cases hnonzero
  · rintro rfl
    exact ⟨h.mem, h.nonzero⟩

/-! ## Runs -/

section Runs

variable {quotient remainder : Poly K} {lead top : Term K} {result : Division K}

/-- A step by a single term takes off the leading term of the remainder. -/
theorem rest_monomial (hdegree : lead.exponent ≤ top.exponent) (hfree : remainder.ZeroFree) :
    rest (monomial lead) lead top remainder = remainder.erase top.exponent := by
  refine eq_of_get?_eq fun e => ?_
  by_cases he : e = top.exponent
  · rw [rest, get?_erase, get?_erase, if_pos he, if_pos he]
  · have hout : ¬(record (monomial lead) lead top remainder).Reaches (monomial lead) e := by
      rintro ⟨d, hd, hsum⟩
      rw [List.mem_singleton.1 hd] at hsum
      exact he (hsum.symm.trans (Nat.sub_add_cancel hdegree))
    rw [get?_rest rfl hdegree hfree hout, get?_erase, if_neg he]

/-- What a run by a single term leaves is what lies below it. -/
theorem Reduction.terms_remainder
    (hrun : Reduction (monomial lead) lead quotient remainder result)
    (hfree : remainder.ZeroFree) :
    result.remainder.terms = remainder.terms.filter fun t => t.exponent < lead.exponent := by
  induction hrun with
  | stop quotient remainder hbelow =>
      refine (List.filter_eq_self.2 fun t ht => ?_).symm
      exact decide_eq_true (Nat.lt_of_lt_of_le (exponent_lt_bound ht) hbelow)
  | step quotient remainder top result htop hdegree hrest ih =>
      have hterms := terms_eq_erase_append htop
      rw [ih zeroFree_rest, rest_monomial hdegree hfree, hterms, List.filter_append]
      simp [Nat.not_lt.2 hdegree]

/-- The terms from the single term upwards are divided one by one, the last one first. -/
theorem Reduction.quotientTerms
    (hrun : Reduction (monomial lead) lead quotient remainder result)
    (hfree : remainder.ZeroFree) :
    result.steps.map DivisionStep.quotientTerm
      = ((remainder.terms.filter fun t => lead.exponent ≤ t.exponent).map (factor lead)).reverse
      := by
  induction hrun with
  | stop quotient remainder hbelow =>
      have hnone : (remainder.terms.filter fun t => lead.exponent ≤ t.exponent) = [] := by
        refine List.filter_eq_nil_iff.2 fun t ht => ?_
        have hlt := exponent_lt_bound ht
        simp only [decide_eq_true_eq]
        omega
      rw [hnone]
      rfl
  | step quotient remainder top result htop hdegree hrest ih =>
      have hterms := terms_eq_erase_append htop
      have hlater := ih zeroFree_rest
      rw [rest_monomial hdegree hfree] at hlater
      rw [hterms, List.filter_append, List.map_cons, hlater]
      simp [hdegree, record]

end Runs

/-! ## The quotient -/

/-- The quotients of the terms that a single term can divide. -/
def quotients (p : Poly K) (lead : Term K) : Poly K where
  terms := (p.terms.filter fun t => lead.exponent ≤ t.exponent).map (factor lead)
  ascending := by
    rw [List.pairwise_map]
    refine (p.ascending.filter _).imp_of_mem fun {s t} hs ht hlt => ?_
    have hle := (List.mem_filter.1 hs).2
    simp only [decide_eq_true_eq] at hle
    simp only [factor]
    omega

/-- Terms at exponents of their own come together as they are, up to zeros: each of them is
    accumulated onto an absent one. -/
theorem prune_ofTerms_reverse [Coefficient.LawfulSums K] (p : Poly K) :
    (ofTerms p.terms.reverse).prune = p.prune := by
  refine eq_of_get?_eq fun e => ?_
  have hmeet : coefficientsAt p.terms.reverse e = (p.get? e).toList := by
    rw [coefficientsAt, List.filter_reverse, List.map_reverse, ← coefficientsAt,
      coefficientsAt_terms]
    cases p.get? e with
    | none => rfl
    | some c => rfl
  rw [get?_prune_eq_unlessZero, get?_prune_eq_unlessZero, coefficient, coefficient, get?_ofTerms,
    hmeet]
  cases p.get? e with
  | none => rfl
  | some c => exact Coefficient.LawfulSums.zero_add _ c Coefficient.LawfulSums.isZero_zero

/-! ## The split -/

/-- A division that splits the dividend at a single term: what lies below it is left, and
    the rest is divided term by term. -/
structure IsSplit (dividend : Poly K) (t : Term K) (result : Division K) : Prop where
  remainder : result.remainder.terms = dividend.terms.filter fun s => s.exponent < t.exponent
  /-- No term is in the quotient but the quotients that are not zero. -/
  quotient : ∀ q, q ∈ result.quotient.terms ↔
    Coefficient.isZero q.coefficient = false
      ∧ ∃ s ∈ dividend.terms, t.exponent ≤ s.exponent
        ∧ q = ⟨s.exponent - t.exponent, s.coefficient / t.coefficient⟩
  /-- The steps show all quotients, those that are zero included. -/
  quotientTerms : result.steps.map DivisionStep.quotientTerm = (dividend.quotients t).terms.reverse
  length : result.steps.length
    = (dividend.terms.filter fun s => t.exponent ≤ s.exponent).length

/-- A run by a single term that starts without a quotient splits the dividend. -/
theorem Reduction.isSplit [Coefficient.LawfulSums K] {dividend : Poly K} {lead : Term K}
    {result : Division K} (hrun : Reduction (monomial lead) lead empty dividend result)
    (hfree : dividend.ZeroFree) : IsSplit dividend lead result := by
  have hterms : result.steps.map DivisionStep.quotientTerm
      = (dividend.quotients lead).terms.reverse := hrun.quotientTerms hfree
  have hquotient : result.quotient = (dividend.quotients lead).prune := by
    rw [hrun.quotient_eq, hterms, ← ofTerms, prune_ofTerms_reverse]
  constructor
  case remainder => exact hrun.terms_remainder hfree
  case quotient =>
    intro q
    rw [hquotient, mem_prune, and_comm, quotients, List.mem_map]
    simp only [List.mem_filter, decide_eq_true_eq, and_assoc, factor, @eq_comm _ q]
  case quotientTerms => exact hterms
  case length =>
    have hlength := congrArg List.length hterms
    simpa [quotients] using hlength

/-- Division of doubles by a divisor whose only coefficient that is not zero is that of `t`
    splits the pruned dividend at the exponent of `t`, without any rounding of the remainder
    and with one rounding for each term of the quotient. -/
theorem divide_splits_at_single_term (p divisor : Poly Float) {t : Term Float}
    (hdivisor : divisor.HasSingleTerm t) :
    ∃ result, p.divide divisor = some result ∧ IsSplit p.prune t result := by
  rcases exists_divide p ⟨t, hdivisor.mem, hdivisor.nonzero⟩ with ⟨result, hresult⟩
  rcases reduction_of_divide hresult with ⟨lead, hlead, hrun⟩
  rw [hdivisor.prune_eq] at hlead hrun
  cases hlead
  exact ⟨result, hresult, hrun.isSplit (zeroFree_prune p)⟩

/-- `1e308 x ^ 5 + 1e-300 x ^ 3 + 5 x + 7`, with a zero in front, divided by `1e-10 x ^ 2`
    with zeros on both sides. One quotient is infinite, and the next remainder would have the
    difference of two infinities at its head, were it not erased. -/
theorem divide_splits_at_single_term_infinite :
    (ofTerms [⟨4, 0⟩, ⟨2, 1e-10⟩, ⟨0, -0⟩] : Poly Float).HasSingleTerm ⟨2, 1e-10⟩
      ∧ ∃ result,
        (ofTerms [⟨9, 0⟩, ⟨5, 1e308⟩, ⟨3, 1e-300⟩, ⟨1, 5⟩, ⟨0, 7⟩] : Poly Float).divide
            (ofTerms [⟨4, 0⟩, ⟨2, 1e-10⟩, ⟨0, -0⟩]) = some result
          ∧ result.remainder.terms = [⟨0, 7⟩, ⟨1, 5⟩]
          ∧ (⟨3, 1e308 / 1e-10⟩ : Term Float) ∈ result.quotient.terms
          ∧ result.steps.length = 2 := by
  have hdivisor : (ofTerms [⟨4, 0⟩, ⟨2, 1e-10⟩, ⟨0, -0⟩] : Poly Float).HasSingleTerm
      ⟨2, 1e-10⟩ := ⟨by decide +kernel, by decide +kernel, by decide +kernel⟩
  have hprune : (ofTerms [⟨9, 0⟩, ⟨5, 1e308⟩, ⟨3, 1e-300⟩, ⟨1, 5⟩, ⟨0, 7⟩] : Poly Float).prune.terms
      = [⟨0, 7⟩, ⟨1, 5⟩, ⟨3, 1e-300⟩, ⟨5, 1e308⟩] := by
    decide +kernel
  rcases divide_splits_at_single_term _ _ hdivisor with ⟨result, hresult, hsplit⟩
  have hquotient : Coefficient.isZero (1e308 / 1e-10 : Float) = false := by decide +kernel
  refine ⟨hdivisor, result, hresult, ?_, ?_, ?_⟩
  · rw [hsplit.remainder, hprune]
    rfl
  · refine (hsplit.quotient _).2 ⟨hquotient, ⟨5, 1e308⟩, ?_, by decide, rfl⟩
    rw [hprune]
    simp
  · rw [hsplit.length, hprune]
    rfl

end Poly

end PolyCalc
