import PolyCalc.Coefficient

/-!
# Sparse Polynomials

A polynomial in one variable as the list of its stored terms, in ascending
order of exponents, each exponent at most once. Which exponents are stored is
part of the value: a term with the coefficient zero may be stored, and then it
counts as a term until `prune` removes it.

The list is the data and `get?` the view: what is stored at an exponent, if
anything. `Poly.View` has one equation for each operation, which says what the
operation does to the view, and the fact that the view determines the
polynomial.

`accumulate` is the one operation by which coefficients meet. It adds to what is
stored at an exponent and starts from zero where nothing is; for doubles the
start matters, since a sum from zero never is a negative zero.

## Main definitions

* `Term`: An exponent with its coefficient.
* `Poly`: A polynomial.
* `Poly.get?`: The coefficient stored at an exponent.
* `Poly.coefficient`: The coefficient at an exponent, zero where none is stored.
* `Poly.accumulate`: One coefficient added at one exponent.
* `Poly.ofTerms`: The polynomial of a list of terms in any order.
* `Poly.prune`: The polynomial without its zero terms.
* `Poly.erase`: The polynomial without one of its terms.

## Theorems

* `Poly.mem_of_mem_filter`: Filtering stores no new term.
* `Poly.exponent_of_mem_accumulateTerms`: Accumulating adds one exponent at most.
* `Poly.ascending_accumulateTerms`: Accumulating keeps the exponents ascending.
-/

namespace PolyCalc

/-- The term `coefficient * x ^ exponent`. -/
structure Term (K : Type) where
  exponent : Nat
  coefficient : K
deriving DecidableEq, Repr

/-- A polynomial: its stored terms by ascending exponent. -/
structure Poly (K : Type) where
  terms : List (Term K)
  ascending : terms.Pairwise fun s t => s.exponent < t.exponent
deriving DecidableEq

namespace Poly

variable {K : Type}

/-- The polynomial without a term. -/
def empty : Poly K := ⟨[], List.Pairwise.nil⟩

/-- The polynomial of a single term, whatever its coefficient. -/
def monomial (t : Term K) : Poly K := ⟨[t], List.pairwise_singleton _ _⟩

/-- The exponents at which a term is stored, ascending. -/
def exponents (p : Poly K) : List Nat := p.terms.map Term.exponent

/-- The number of stored terms. -/
def size (p : Poly K) : Nat := p.terms.length

/-- Is no term stored? -/
def isEmpty (p : Poly K) : Bool := p.terms.isEmpty

/-- The term with the highest stored exponent. -/
def leadingTerm? (p : Poly K) : Option (Term K) := p.terms.getLast?

/-- The highest stored exponent, zero when none is stored. -/
def degree (p : Poly K) : Nat := (p.leadingTerm?.map Term.exponent).getD 0

/-- The coefficient stored at an exponent. -/
def get? (p : Poly K) (e : Nat) : Option K :=
  (p.terms.find? fun t => t.exponent = e).map Term.coefficient

/-- The terms whose coefficients satisfy a condition on terms. -/
def filter (keep : Term K → Bool) (p : Poly K) : Poly K :=
  ⟨p.terms.filter keep, p.ascending.filter keep⟩

theorem mem_of_mem_filter {keep : Term K → Bool} {p : Poly K} {t : Term K}
    (h : t ∈ (p.filter keep).terms) : t ∈ p.terms := (List.mem_filter.1 h).1

/-- The polynomial without the term at an exponent. -/
def erase (p : Poly K) (e : Nat) : Poly K := p.filter fun t => t.exponent ≠ e

/-- The polynomial with each coefficient replaced by its image. -/
def map (f : K → K) (p : Poly K) : Poly K where
  terms := p.terms.map fun t => ⟨t.exponent, f t.coefficient⟩
  ascending := by simpa [List.pairwise_map] using p.ascending

variable [Coefficient K]

/-- The coefficient at an exponent, zero where none is stored. -/
def coefficient (p : Poly K) (e : Nat) : K := (p.get? e).getD Coefficient.zero

/-- Is every stored coefficient zero? -/
def isZero (p : Poly K) : Bool := p.terms.all fun t => Coefficient.isZero t.coefficient

/-- The polynomial without its zero terms. -/
def prune (p : Poly K) : Poly K := p.filter fun t => !Coefficient.isZero t.coefficient

/-- Terms in ascending order with one coefficient added at one exponent. -/
def accumulateTerms (new : Term K) : List (Term K) → List (Term K)
  | [] => [⟨new.exponent, Coefficient.zero + new.coefficient⟩]
  | t :: rest =>
    if new.exponent < t.exponent then
      ⟨new.exponent, Coefficient.zero + new.coefficient⟩ :: t :: rest
    else if new.exponent = t.exponent then
      ⟨t.exponent, t.coefficient + new.coefficient⟩ :: rest
    else t :: accumulateTerms new rest

/-- Accumulating adds no exponent but the new one. -/
theorem exponent_of_mem_accumulateTerms {new t : Term K} {terms : List (Term K)}
    (h : t ∈ accumulateTerms new terms) :
    t.exponent = new.exponent ∨ ∃ s ∈ terms, s.exponent = t.exponent := by
  induction terms with
  | nil =>
    rw [accumulateTerms, List.mem_singleton] at h
    exact .inl (h ▸ rfl)
  | cons s rest ih =>
    rw [accumulateTerms] at h
    split at h
    · rcases List.mem_cons.1 h with rfl | h
      · exact .inl rfl
      · exact .inr ⟨t, h, rfl⟩
    · split at h
      · rcases List.mem_cons.1 h with rfl | h
        · exact .inr ⟨s, List.mem_cons_self, rfl⟩
        · exact .inr ⟨t, List.mem_cons_of_mem _ h, rfl⟩
      · rcases List.mem_cons.1 h with rfl | h
        · exact .inr ⟨t, List.mem_cons_self, rfl⟩
        · rcases ih h with h | ⟨u, hu, he⟩
          · exact .inl h
          · exact .inr ⟨u, List.mem_cons_of_mem _ hu, he⟩

theorem ascending_accumulateTerms (new : Term K) {terms : List (Term K)}
    (h : terms.Pairwise fun s t => s.exponent < t.exponent) :
    (accumulateTerms new terms).Pairwise fun s t => s.exponent < t.exponent := by
  induction terms with
  | nil => exact List.pairwise_singleton _ _
  | cons s rest ih =>
    rw [List.pairwise_cons] at h
    rw [accumulateTerms]
    split
    · rename_i hlt
      refine List.pairwise_cons.2 ⟨fun t ht => ?_, List.pairwise_cons.2 h⟩
      rcases List.mem_cons.1 ht with rfl | ht
      · exact hlt
      · exact Nat.lt_trans hlt (h.1 t ht)
    · split
      · exact List.pairwise_cons.2 h
      · refine List.pairwise_cons.2 ⟨fun t ht => ?_, ih h.2⟩
        rcases exponent_of_mem_accumulateTerms ht with he | ⟨u, hu, he⟩
        · omega
        · exact he ▸ h.1 u hu

/-- The polynomial with a coefficient added at an exponent: to the coefficient
    stored there, or to zero where none is. -/
def accumulate (p : Poly K) (new : Term K) : Poly K :=
  ⟨accumulateTerms new p.terms, ascending_accumulateTerms new p.ascending⟩

/-- The polynomial with a list of terms accumulated onto it in order. -/
def accumulateAll (p : Poly K) (terms : List (Term K)) : Poly K :=
  terms.foldl accumulate p

/-- The polynomial of a list of terms. Coefficients of one exponent are summed
    in the order of the list, and zero sums are kept. -/
def ofTerms (terms : List (Term K)) : Poly K := empty.accumulateAll terms

end Poly

end PolyCalc
