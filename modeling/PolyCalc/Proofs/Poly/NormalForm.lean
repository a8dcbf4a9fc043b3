import PolyCalc.Poly.Division
import PolyCalc.Poly.View

/-!
# Leading Terms and Zero Terms

A stored term may have the coefficient zero, and then the leading term of a
polynomial says nothing about its degree as a polynomial. `ZeroFree` excludes
this, and every operation that prunes its result establishes it.

The leading term is read off the end of the list, `bound` and `degree` off the
leading term. The lemmas here connect the three, so that later arguments about
degrees compare `bound` with numbers and leave the list alone.

A polynomial is rebuilt from its terms in descending order, but only where adding to
zero changes nothing; a stored negative zero would not come back.

## Main definitions

* `ZeroFree`: No stored coefficient is zero.

## Theorems

* `exponent_lt_bound`: All stored exponents lie below the bound.
* `bound_eq_zero_iff`: Only the empty polynomial has the bound zero.
* `zeroFree_prune`: Pruning leaves no zero term.
* `prune_eq_self`: Pruning removes nothing else.
* `ZeroFree.isZero_iff`: Without zero terms, zero means empty.
* `leadingTerm?_prune_eq_none_iff`, `isZero_iff_terms_prune`: When nothing is left.
* `isEmpty_ofTerms`: The polynomial of terms has a term.
* `ofTerms_reverse`: A polynomial from its terms in descending order.
-/

namespace PolyCalc

namespace Poly

variable {K : Type}

theorem eq_of_terms_eq {p q : Poly K} (h : p.terms = q.terms) : p = q := by
  cases p
  cases q
  cases h
  rfl

/-! ## Leading terms -/

theorem leadingTerm?_eq_none_iff {p : Poly K} : p.leadingTerm? = none ↔ p.terms = [] :=
  List.getLast?_eq_none_iff

theorem mem_of_leadingTerm? {p : Poly K} {lead : Term K} (h : p.leadingTerm? = some lead) :
    lead ∈ p.terms := List.mem_of_getLast? h

theorem bound_of_leadingTerm? {p : Poly K} {lead : Term K} (h : p.leadingTerm? = some lead) :
    p.bound = lead.exponent + 1 := by
  unfold bound
  rw [h]

theorem degree_of_leadingTerm? {p : Poly K} {lead : Term K} (h : p.leadingTerm? = some lead) :
    p.degree = lead.exponent := by
  unfold degree
  rw [h]
  rfl

theorem exponent_lt_bound {p : Poly K} {t : Term K} (ht : t ∈ p.terms) :
    t.exponent < p.bound := by
  cases hlead : p.leadingTerm? with
  | none =>
      rw [leadingTerm?_eq_none_iff.1 hlead] at ht
      cases ht
  | some lead =>
      rw [bound_of_leadingTerm? hlead]
      exact Nat.lt_succ_of_le (exponent_le_of_leadingTerm? hlead ht)

theorem bound_eq_zero_iff {p : Poly K} : p.bound = 0 ↔ p.terms = [] := by
  rw [← leadingTerm?_eq_none_iff]
  cases hlead : p.leadingTerm? with
  | none =>
      unfold bound
      rw [hlead]
      simp only
  | some lead =>
      rw [bound_of_leadingTerm? hlead]
      simp only [reduceCtorEq]

/-- The degree of a polynomial without a term is taken to be zero, which costs
    one in the comparison with the bound. -/
theorem bound_le_degree_add_one (p : Poly K) : p.bound ≤ p.degree + 1 := by
  cases hlead : p.leadingTerm? with
  | none =>
      have hbound := bound_eq_zero_iff.2 (leadingTerm?_eq_none_iff.1 hlead)
      omega
  | some lead =>
      have hbound := bound_of_leadingTerm? hlead
      have hdegree := degree_of_leadingTerm? hlead
      omega

/-! ## Zero terms -/

variable [Coefficient K]

/-- No stored coefficient is zero. -/
def ZeroFree (p : Poly K) : Prop := ∀ t ∈ p.terms, Coefficient.isZero t.coefficient = false

theorem mem_prune {p : Poly K} {t : Term K} :
    t ∈ p.prune.terms ↔ t ∈ p.terms ∧ Coefficient.isZero t.coefficient = false := by
  rw [prune, filter, List.mem_filter, Bool.not_eq_true']

theorem zeroFree_prune (p : Poly K) : p.prune.ZeroFree := by
  intro t ht
  exact (mem_prune.1 ht).2

theorem ZeroFree.filter {p : Poly K} (h : p.ZeroFree) (keep : Term K → Bool) :
    (p.filter keep).ZeroFree := by
  intro t ht
  exact h t (mem_of_mem_filter ht)

theorem prune_eq_self {p : Poly K} (h : p.ZeroFree) : p.prune = p := by
  refine eq_of_terms_eq (List.filter_eq_self.2 fun t ht => ?_)
  rw [h t ht, Bool.not_false]

/-- Without zero terms only the empty polynomial is zero. -/
theorem ZeroFree.isZero_iff {p : Poly K} (h : p.ZeroFree) : p.isZero = true ↔ p.terms = [] := by
  rw [isZero, List.all_eq_true]
  constructor
  · intro hall
    rw [List.eq_nil_iff_forall_not_mem]
    intro t ht
    have hzero := hall t ht
    rw [h t ht] at hzero
    cases hzero
  · intro hnil
    rw [hnil]
    intro t ht
    cases ht

theorem leadingTerm?_prune_eq_none_iff {p : Poly K} :
    p.prune.leadingTerm? = none ↔ ∀ t ∈ p.terms, Coefficient.isZero t.coefficient = true := by
  rw [leadingTerm?_eq_none_iff, List.eq_nil_iff_forall_not_mem]
  constructor
  · intro h t ht
    by_cases hzero : Coefficient.isZero t.coefficient = true
    · exact hzero
    · exact absurd (mem_prune.2 ⟨ht, Bool.eq_false_iff.2 hzero⟩) (h t)
  · intro h t ht
    rcases mem_prune.1 ht with ⟨ht, hzero⟩
    rw [h t ht] at hzero
    cases hzero

theorem isZero_iff_terms_prune {p : Poly K} : p.isZero = true ↔ p.prune.terms = [] := by
  rw [← leadingTerm?_eq_none_iff, leadingTerm?_prune_eq_none_iff, isZero, List.all_eq_true]

/-! ## Accumulating something -/

theorem accumulateTerms_ne_nil (new : Term K) (terms : List (Term K)) :
    accumulateTerms new terms ≠ [] := by
  cases terms with
  | nil => exact List.cons_ne_nil _ _
  | cons t rest =>
      rw [accumulateTerms]
      split
      · exact List.cons_ne_nil _ _
      · split
        · exact List.cons_ne_nil _ _
        · exact List.cons_ne_nil _ _

/-- Accumulating removes no term, and the first term accumulated is stored. -/
theorem terms_accumulateAll_ne_nil {p : Poly K} {terms : List (Term K)}
    (h : p.terms ≠ [] ∨ terms ≠ []) : (p.accumulateAll terms).terms ≠ [] := by
  induction terms generalizing p with
  | nil => exact h.resolve_right (fun hne => hne rfl)
  | cons t rest ih => exact ih (.inl (accumulateTerms_ne_nil t p.terms))

theorem isEmpty_ofTerms {terms : List (Term K)} (h : terms ≠ []) :
    (ofTerms terms).isEmpty = false :=
  List.isEmpty_eq_false_iff.2 (terms_accumulateAll_ne_nil (.inr h))

/-! ## Accumulating in descending order -/

theorem accumulateTerms_of_lt {new : Term K} {terms : List (Term K)}
    (h : ∀ t ∈ terms, new.exponent < t.exponent) :
    accumulateTerms new terms
      = ⟨new.exponent, Coefficient.zero + new.coefficient⟩ :: terms := by
  cases terms with
  | nil => rfl
  | cons t rest => rw [accumulateTerms, if_pos (h t List.mem_cons_self)]

/-- Terms that are accumulated from the highest exponent down each come to stand in
    front of the earlier ones. -/
theorem terms_foldr_accumulate {terms : List (Term K)}
    (hascending : terms.Pairwise fun s t => s.exponent < t.exponent)
    (hzero : ∀ t ∈ terms, Coefficient.zero + t.coefficient = t.coefficient) :
    (terms.foldr (fun t p => accumulate p t) empty).terms = terms := by
  induction terms with
  | nil => rfl
  | cons t rest ih =>
      rw [List.pairwise_cons] at hascending
      have hrest := ih hascending.2 (fun s hs => hzero s (List.mem_cons_of_mem _ hs))
      -- The later terms are in place, and this one lies below all of them.
      have hfront : accumulateTerms t rest = t :: rest := by
        rw [accumulateTerms_of_lt hascending.1, hzero t List.mem_cons_self]
      exact (congrArg (accumulateTerms t) hrest).trans hfront

/-- The terms of a polynomial in descending order give the polynomial back, if a
    sum from zero keeps its coefficients. -/
theorem ofTerms_reverse {p : Poly K}
    (h : ∀ t ∈ p.terms, Coefficient.zero + t.coefficient = t.coefficient) :
    ofTerms p.terms.reverse = p := by
  refine eq_of_terms_eq ?_
  rw [ofTerms, accumulateAll, List.foldl_reverse]
  exact terms_foldr_accumulate p.ascending h

end Poly

end PolyCalc
