import PolyCalc.Poly.Basic

/-!
# What Is Stored Where

The view of a polynomial: `get?` tells what is stored at an exponent, and a
polynomial is nothing more than that. Each operation that changes what is stored
gets the one equation that says what it does to the view, so later arguments look
up coefficients and leave the list alone.

The step from the list to the view is `get?_eq_some_iff`: since exponents ascend
strictly, the first term found at an exponent is the only one there. The step
back is `eq_of_get?_eq`, where the order matters once more: the view tells which
terms are stored, and their ascending order leaves a single list of them.

`accumulate` is the only operation that changes a coefficient where another one
may stand, and `get?_accumulate` is the only equation that mentions addition.

## Theorems

* `Poly.get?_eq_some_iff`: A coefficient is found exactly where it is stored.
* `Poly.get?_eq_none_iff`: Nothing is found exactly off the stored exponents.
* `Poly.eq_of_get?_eq`: Equal views are views of equal polynomials.
* `Poly.get?_empty`: Nothing is stored in the empty polynomial.
* `Poly.get?_filter`, `Poly.get?_erase`, `Poly.get?_prune`: What is left.
* `Poly.get?_map`: What stands in the place of a coefficient.
* `Poly.get?_accumulate`: One sum at one exponent.
-/

namespace PolyCalc

namespace Poly

variable {K : Type}

/-- Two terms at one exponent of a polynomial are one term. -/
theorem eq_of_exponent_eq {terms : List (Term K)} {s t : Term K}
    (h : terms.Pairwise fun s t => s.exponent < t.exponent)
    (hs : s ∈ terms) (ht : t ∈ terms) (he : s.exponent = t.exponent) : s = t := by
  induction terms with
  | nil => cases hs
  | cons u rest ih =>
    rw [List.pairwise_cons] at h
    rcases List.mem_cons.1 hs with hsu | hs
    · rcases List.mem_cons.1 ht with htu | ht
      · exact hsu.trans htu.symm
      · exact absurd (hsu ▸ he) (Nat.ne_of_lt (h.1 t ht))
    · rcases List.mem_cons.1 ht with htu | ht
      · exact absurd (htu ▸ he.symm) (Nat.ne_of_lt (h.1 s hs))
      · exact ih h.2 hs ht

/-- A coefficient is found at an exponent exactly if it is stored there. -/
theorem get?_eq_some_iff {p : Poly K} {e : Nat} {c : K} :
    p.get? e = some c ↔ (⟨e, c⟩ : Term K) ∈ p.terms := by
  rw [get?, Option.map_eq_some_iff]
  constructor
  · rintro ⟨t, ht, rfl⟩
    have he : t.exponent = e := by simpa using List.find?_some ht
    exact he ▸ List.mem_of_find?_eq_some ht
  · intro hmem
    cases hfind : p.terms.find? fun t => t.exponent = e with
    | none => exact absurd (List.find?_eq_none.1 hfind _ hmem) (by simp)
    | some t =>
      have he : t.exponent = e := by simpa using List.find?_some hfind
      have ht := eq_of_exponent_eq p.ascending (List.mem_of_find?_eq_some hfind) hmem he
      exact ⟨t, rfl, congrArg Term.coefficient ht⟩

/-- Nothing is found at an exponent exactly if no term is stored there. -/
theorem get?_eq_none_iff {p : Poly K} {e : Nat} : p.get? e = none ↔ e ∉ p.exponents := by
  rw [get?, Option.map_eq_none_iff, List.find?_eq_none, exponents]
  simp

/-- Ascending lists with the same terms are equal. -/
theorem eq_of_mem_iff {s t : List (Term K)}
    (hs : s.Pairwise fun u v => u.exponent < v.exponent)
    (ht : t.Pairwise fun u v => u.exponent < v.exponent)
    (h : ∀ u, u ∈ s ↔ u ∈ t) : s = t := by
  induction s generalizing t with
  | nil =>
    cases t with
    | nil => rfl
    | cons v t => exact absurd ((h v).2 List.mem_cons_self) List.not_mem_nil
  | cons u s ih =>
    cases t with
    | nil => exact absurd ((h u).1 List.mem_cons_self) List.not_mem_nil
    | cons v t =>
      rw [List.pairwise_cons] at hs ht
      -- Each head is the least term of both lists, so they are the same term.
      have huv : u = v := by
        rcases List.mem_cons.1 ((h u).1 List.mem_cons_self) with hu | hu
        · exact hu
        · rcases List.mem_cons.1 ((h v).2 List.mem_cons_self) with hv | hv
          · exact hv.symm
          · exact absurd (ht.1 u hu) (Nat.lt_asymm (hs.1 v hv))
      subst huv
      refine congrArg (u :: ·) (ih hs.2 ht.2 fun w => ⟨fun hw => ?_, fun hw => ?_⟩)
      · rcases List.mem_cons.1 ((h w).1 (List.mem_cons_of_mem _ hw)) with rfl | hw'
        · exact absurd (hs.1 w hw) (Nat.lt_irrefl _)
        · exact hw'
      · rcases List.mem_cons.1 ((h w).2 (List.mem_cons_of_mem _ hw)) with rfl | hw'
        · exact absurd (ht.1 w hw) (Nat.lt_irrefl _)
        · exact hw'

/-- Polynomials in which the same is found at every exponent are equal. -/
theorem eq_of_get?_eq {p q : Poly K} (h : ∀ e, p.get? e = q.get? e) : p = q := by
  have hterms : p.terms = q.terms := by
    refine eq_of_mem_iff p.ascending q.ascending fun t => ?_
    have hp : p.get? t.exponent = some t.coefficient ↔ t ∈ p.terms := get?_eq_some_iff
    have hq : q.get? t.exponent = some t.coefficient ↔ t ∈ q.terms := get?_eq_some_iff
    rw [← hp, ← hq, h]
  cases p
  cases q
  cases hterms
  rfl

/-- Nothing is found in the empty polynomial. -/
theorem get?_empty (e : Nat) : (empty : Poly K).get? e = none := rfl

/-- A coefficient is found in a filtered polynomial if its term is kept. -/
theorem get?_filter (keep : Term K → Bool) (p : Poly K) (e : Nat) :
    (p.filter keep).get? e = (p.get? e).filter fun c => keep ⟨e, c⟩ := by
  refine Option.ext fun c => ?_
  rw [get?_eq_some_iff, Option.filter_eq_some_iff, get?_eq_some_iff, filter, List.mem_filter]

/-- Erasing empties its own exponent and no other. -/
theorem get?_erase (p : Poly K) (d e : Nat) :
    (p.erase d).get? e = if e = d then none else p.get? e := by
  rw [erase, get?_filter]
  by_cases h : e = d
  · simp [h]
  · cases p.get? e <;> simp [h]

/-- Each stored coefficient is replaced where it stands. -/
theorem get?_map (f : K → K) (p : Poly K) (e : Nat) : (p.map f).get? e = (p.get? e).map f := by
  rw [get?, get?, map, List.find?_map, Option.map_map, Option.map_map]
  rfl

variable [Coefficient K]

theorem coefficient_of_get? {p : Poly K} {e : Nat} {c : K} (h : p.get? e = some c) :
    p.coefficient e = c := by
  rw [coefficient, h, Option.getD_some]

theorem coefficient_of_get?_eq_none {p : Poly K} {e : Nat} (h : p.get? e = none) :
    p.coefficient e = Coefficient.zero := by
  rw [coefficient, h, Option.getD_none]

/-- Pruning leaves what is stored and not zero. -/
theorem get?_prune (p : Poly K) (e : Nat) :
    p.prune.get? e = (p.get? e).filter fun c => !Coefficient.isZero c :=
  get?_filter _ p e

/-- What is found in an ascending list after a term was accumulated onto it. The
    walk stops at the first exponent not below the new one, and strict ascent is
    why nothing at that exponent can follow. -/
theorem find?_accumulateTerms (new : Term K) {terms : List (Term K)} (e : Nat)
    (h : terms.Pairwise fun s t => s.exponent < t.exponent) :
    ((accumulateTerms new terms).find? fun t => t.exponent = e).map Term.coefficient
      = if e = new.exponent then
          some ((((terms.find? fun t => t.exponent = e).map Term.coefficient).getD
            Coefficient.zero) + new.coefficient)
        else (terms.find? fun t => t.exponent = e).map Term.coefficient := by
  induction terms with
  | nil =>
    rw [accumulateTerms, List.find?_singleton]
    by_cases he : e = new.exponent
    · simp [he]
    · simp [he, Ne.symm he]
  | cons s rest ih =>
    rw [List.pairwise_cons] at h
    rw [accumulateTerms]
    split
    · rename_i hlt
      by_cases he : e = new.exponent
      · -- The new term is found, and behind it all exponents are higher.
        subst he
        have hnone : ((s :: rest).find? fun t => t.exponent = new.exponent) = none := by
          refine List.find?_eq_none.2 fun t ht => ?_
          rcases List.mem_cons.1 ht with rfl | ht
          · simpa using Nat.ne_of_gt hlt
          · simpa using Nat.ne_of_gt (Nat.lt_trans hlt (h.1 t ht))
        rw [hnone]
        simp
      · rw [List.find?_cons_of_neg (by simpa using Ne.symm he)]
        simp [he]
    · split
      · rename_i heq
        by_cases he : e = new.exponent
        · simp [he, heq]
        · have hs : ¬s.exponent = e := fun hse => he (hse.symm.trans heq.symm)
          simp [he, hs]
      · rename_i hlt hne
        by_cases hs : s.exponent = e
        · have he : e ≠ new.exponent := fun h => hne (h ▸ hs.symm)
          simp [hs, he]
        · rw [List.find?_cons_of_neg (by simpa using hs),
            List.find?_cons_of_neg (by simpa using hs)]
          exact ih h.2

/-- Accumulating adds to what is found at one exponent, or to zero where nothing
    is, and touches no other exponent. -/
theorem get?_accumulate (p : Poly K) (new : Term K) (e : Nat) :
    (p.accumulate new).get? e
      = if e = new.exponent then some (p.coefficient e + new.coefficient) else p.get? e :=
  find?_accumulateTerms new e p.ascending

end Poly

end PolyCalc
