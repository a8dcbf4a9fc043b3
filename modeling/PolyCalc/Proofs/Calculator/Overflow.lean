import PolyCalc.Proofs.Calculator.Answers
import PolyCalc.Proofs.Expression.Values
import PolyCalc.Proofs.Poly.Overflow

/-!
# Calculations in Words

A calculation adds exponents when it multiplies and subtracts and adds them when it
divides. `checkedCalculate` performs the same calculation with these operations
checked, and the check never fails. For a product the reason is the limit on written
exponents, which leaves room for one addition and many more. For a quotient the limit
is not needed: a division stays within the words of its dividend.

## Main definitions

* `checkedCalculate`: A calculation with each operation on exponents checked.

## Theorems

* `exponent_le_of_mem_products_of_parse`: The sums of a product of two texts.
* `checkedCalculate_eq`: No check of a calculation fails.
* `exponents_never_overflow`: The limits that all exponents stay within.
-/

namespace PolyCalc

open Exponent (Overflow capacity)

/-- A calculation with each sum and each difference of exponents checked. Only a
    product and a quotient of two polynomials take any. -/
def checkedCalculate (operation : Operation) (first second : String) :
    Except Overflow (Except Rejection (Outcome × List Event)) :=
  match operation, readOperand .first first, readOperand .second second with
  | .multiply, .ok p, .ok q =>
    (p.checkedMultiply q).map fun product => .ok (.polynomial product, [])
  | .divide, .ok p, .ok divisor =>
    (p.checkedDivide divisor).map fun
      | none => .error ⟨.divisionByZero, [.divisorRejected second]⟩
      | some d => .ok (.division d, d.steps.map .divisionStep)
  | _, _, _ => .ok (calculate operation first second)

theorem exponent_lt_capacity_of_parse {text : String} {p : Poly Float}
    (h : Expression.parse text = .ok p) {t : Term Float} (ht : t ∈ p.terms) :
    t.exponent < capacity :=
  Nat.lt_of_le_of_lt (Expression.exponent_le_of_parse h ht) (by decide)

/-- A product of two texts adds two exponents within the limit. -/
theorem exponent_le_of_mem_products_of_parse {first second : String} {p q : Poly Float}
    (hp : Expression.parse first = .ok p) (hq : Expression.parse second = .ok q)
    {t : Term Float} (ht : t ∈ p.products q) :
    t.exponent ≤ maxWrittenExponent + maxWrittenExponent := by
  obtain ⟨u, hu, ht⟩ := List.mem_flatMap.1 ht
  obtain ⟨v, hv, rfl⟩ := List.mem_map.1 ht
  exact Nat.add_le_add (Expression.exponent_le_of_parse hp hu)
    (Expression.exponent_le_of_parse hq hv)

/-- No check of a calculation fails, and a calculation with checks is the one without. -/
theorem checkedCalculate_eq (operation : Operation) (first second : String) :
    checkedCalculate operation first second = .ok (calculate operation first second) := by
  -- Two operands that were read for a product, two for a quotient, and all else.
  unfold checkedCalculate
  split
  · rename_i p q hp hq
    have hfits : ∀ t ∈ p.products q, t.exponent < capacity := by
      intro t ht
      have hle := exponent_le_of_mem_products_of_parse (parse_of_readOperand hp)
        (parse_of_readOperand hq) ht
      exact Nat.lt_of_le_of_lt hle (by decide)
    rw [Poly.checkedMultiply_of_lt hfits, calculate, hp]
    simp only [bind, Except.bind, hq]
    rfl
  · rename_i p divisor hp hdivisor
    have hfits : ∀ t ∈ p.terms, t.exponent < capacity := fun t ht =>
      exponent_lt_capacity_of_parse (parse_of_readOperand hp) ht
    rw [Poly.checkedDivide_of_lt hfits, calculate, hp]
    simp only [bind, Except.bind, hdivisor, Except.map]
    cases p.divide divisor with
    | none => rfl
    | some d => rfl
  · rfl

/-- Arithmetic on exponents never leaves the words of 64 bits that they are kept in.
    No calculation fails a check, whatever its operation and its texts are: an exponent
    that was read is less than `2 ^ 32`, and a sum of two of them is at most
    `2 ^ 33 - 2`. A division stays within a word for any dividend that fits into words
    and any divisor at all: at each step the degree of the divisor is subtracted from
    one that is not less, and every sum is at most the degree of the remainder before
    the step, which is at most that of the dividend. -/
theorem exponents_never_overflow :
    (∀ operation first second,
        checkedCalculate operation first second = .ok (calculate operation first second))
      ∧ (∀ text p, Expression.parse text = .ok p → ∀ t ∈ p.terms, t.exponent ≤ 2 ^ 32 - 1)
      ∧ (∀ first second p q, Expression.parse first = .ok p → Expression.parse second = .ok q →
        ∀ t ∈ p.products q, t.exponent ≤ 2 ^ 33 - 2)
      ∧ ∀ p divisor : Poly Float, (∀ t ∈ p.terms, t.exponent < 2 ^ 64) →
        p.checkedDivide divisor = .ok (p.divide divisor)
          ∧ ∀ result, p.divide divisor = some result → ∀ s ∈ result.steps,
            Poly.IsWithin divisor.prune s ∧ s.degreeBefore ≤ p.degree := by
  refine ⟨checkedCalculate_eq, ?_, ?_, ?_⟩
  · intro text p hp t ht
    exact Expression.exponent_le_of_parse hp ht
  · intro first second p q hp hq t ht
    exact exponent_le_of_mem_products_of_parse hp hq ht
  · intro p divisor hfits
    refine ⟨Poly.checkedDivide_of_lt hfits divisor, ?_⟩
    intro result hresult s hs
    obtain ⟨lead, hlead, hrun⟩ := Poly.reduction_of_divide hresult
    exact ⟨hrun.isWithin hlead hs, Poly.degreeBefore_le_degree hlead hrun hs⟩

end PolyCalc
