import PolyCalc.Proofs.Poly.Reduction

/-!
# Where Results Have Terms

The exponents of a result come from those of its operands, and no result has a zero
term, whatever zeros the operands have stored. For the ring operations both are plain
from their last step, which prunes what was accumulated.

The remainder of a division is not pruned in the end. It starts out pruned, each step
prunes the difference and then only removes a term, and so it is without zero terms at
both ends of the loop. What a step brings in stands where a term of the divisor is
lifted to by the quotient term. So each exponent of the remainder is one that the
dividend has had from the start, or the sum of the exponents of a quotient term and
of a term of the divisor.

## Theorems

* `mem_exponents_iff`: A coefficient is found at the exponents of terms only.
* `zeroFree_add`, `zeroFree_subtract`, `zeroFree_multiply`: Results have no zero term.
* `mem_exponents_add`, `mem_exponents_subtract`: Exponents of one operand.
* `mem_exponents_multiply`: Sums of two exponents.
* `mem_exponents_rest`: What one step brings in.
* `Reduction.mem_exponents_remainder`: What a whole run leaves.
* `Reduction.mem_exponents_quotient`: The exponents of the quotient terms.
-/

namespace PolyCalc

namespace Poly

variable {K : Type}

theorem mem_exponents {p : Poly K} {e : Nat} : e ∈ p.exponents ↔ ∃ t ∈ p.terms, t.exponent = e :=
  List.mem_map

/-- At an exponent where a term is stored a coefficient is found. -/
theorem mem_exponents_iff {p : Poly K} {e : Nat} : e ∈ p.exponents ↔ ∃ c, p.get? e = some c := by
  rw [mem_exponents]
  constructor
  · rintro ⟨t, ht, rfl⟩
    exact ⟨t.coefficient, get?_eq_some_iff.2 ht⟩
  · rintro ⟨c, hc⟩
    exact ⟨⟨e, c⟩, get?_eq_some_iff.1 hc, rfl⟩

theorem mem_exponents_of_mem_filter {keep : Term K → Bool} {p : Poly K} {e : Nat}
    (h : e ∈ (p.filter keep).exponents) : e ∈ p.exponents := by
  obtain ⟨t, ht, he⟩ := mem_exponents.1 h
  exact mem_exponents.2 ⟨t, mem_of_mem_filter ht, he⟩

variable [Coefficient K]

theorem exponents_neg (p : Poly K) : p.neg.exponents = p.exponents := by
  simp [exponents, neg, map]

/-! ## Ring operations -/

section Ring

variable (p q : Poly K)

theorem zeroFree_add : (p.add q).ZeroFree := zeroFree_prune _

theorem zeroFree_subtract : (p.subtract q).ZeroFree := zeroFree_prune _

theorem zeroFree_multiply : (p.multiply q).ZeroFree := zeroFree_prune _

end Ring

variable {p q : Poly K} {e : Nat}

/-- What was accumulated and pruned has no exponents but those of its parts. -/
theorem mem_exponents_prune_accumulateAll {terms : List (Term K)}
    (h : e ∈ (p.accumulateAll terms).prune.exponents) :
    e ∈ p.exponents ∨ ∃ t ∈ terms, t.exponent = e := by
  obtain ⟨t, ht, rfl⟩ := mem_exponents.1 h
  rcases exponent_of_mem_accumulateAll (mem_of_mem_filter ht) with hold | hnew
  · exact .inl (mem_exponents.2 hold)
  · exact .inr hnew

theorem mem_exponents_add (h : e ∈ (p.add q).exponents) :
    e ∈ p.exponents ∨ e ∈ q.exponents :=
  (mem_exponents_prune_accumulateAll h).imp_right mem_exponents.2

theorem mem_exponents_subtract (h : e ∈ (p.subtract q).exponents) :
    e ∈ p.exponents ∨ e ∈ q.exponents := by
  rw [← exponents_neg q]
  exact (mem_exponents_prune_accumulateAll h).imp_right mem_exponents.2

theorem mem_exponents_multiply (h : e ∈ (p.multiply q).exponents) :
    ∃ d ∈ p.exponents, ∃ f ∈ q.exponents, d + f = e := by
  rcases mem_exponents_prune_accumulateAll h with hempty | ⟨t, ht, rfl⟩
  · cases hempty
  · obtain ⟨u, hu, ht⟩ := List.mem_flatMap.1 ht
    obtain ⟨v, hv, rfl⟩ := List.mem_map.1 ht
    exact ⟨_, List.mem_map_of_mem hu, _, List.mem_map_of_mem hv, rfl⟩

/-- Multiplying by a single term lifts exponents by its own. -/
theorem mem_exponents_multiply_monomial {t : Term K}
    (h : e ∈ ((monomial t).multiply q).exponents) : ∃ d ∈ q.exponents, t.exponent + d = e := by
  obtain ⟨f, hf, d, hd, hsum⟩ := mem_exponents_multiply h
  have hf : f = t.exponent := List.mem_singleton.1 hf
  exact ⟨d, hd, hf ▸ hsum⟩

/-! ## Division -/

section Division

variable {divisor quotient remainder : Poly K} {lead top : Term K} {result : Division K}

/-- A step leaves exponents of the remainder, and those that the quotient term lifts
    the divisor to. -/
theorem mem_exponents_rest (h : e ∈ (rest divisor lead top remainder).exponents) :
    e ∈ remainder.exponents
      ∨ ∃ d ∈ divisor.exponents, (factor lead top).exponent + d = e := by
  rcases mem_exponents_subtract (mem_exponents_of_mem_filter h) with hold | hlifted
  · exact .inl hold
  · exact .inr (mem_exponents_multiply_monomial hlifted)

theorem Reduction.mem_exponents_remainder
    (hrun : Reduction divisor lead quotient remainder result)
    (h : e ∈ result.remainder.exponents) :
    e ∈ remainder.exponents
      ∨ ∃ s ∈ result.steps, ∃ d ∈ divisor.exponents, s.quotientTerm.exponent + d = e := by
  induction hrun with
  | stop quotient remainder hbelow => exact .inl h
  | step quotient remainder top result htop hdegree hrest ih =>
      -- What is left in the end was left by this step or brought in by a later one.
      rcases ih h with hleft | ⟨s, hs, hlater⟩
      · rcases mem_exponents_rest hleft with hold | hnew
        · exact .inl hold
        · exact .inr ⟨record divisor lead top remainder, List.mem_cons_self, hnew⟩
      · exact .inr ⟨s, List.mem_cons_of_mem _ hs, hlater⟩

theorem Reduction.mem_exponents_quotient
    (hrun : Reduction divisor lead quotient remainder result)
    (h : e ∈ result.quotient.exponents) :
    e ∈ quotient.exponents ∨ ∃ s ∈ result.steps, s.quotientTerm.exponent = e := by
  induction hrun with
  | stop quotient remainder hbelow => exact .inl (mem_exponents_of_mem_filter h)
  | step quotient remainder top result htop hdegree hrest ih =>
      rcases ih h with hleft | ⟨s, hs, hlater⟩
      · obtain ⟨t, ht, rfl⟩ := mem_exponents.1 hleft
        rcases exponent_of_mem_accumulateTerms ht with hnew | hold
        · exact .inr ⟨record divisor lead top remainder, List.mem_cons_self, hnew.symm⟩
        · exact .inl (mem_exponents.2 hold)
      · exact .inr ⟨s, List.mem_cons_of_mem _ hs, hlater⟩

end Division

end Poly

end PolyCalc
