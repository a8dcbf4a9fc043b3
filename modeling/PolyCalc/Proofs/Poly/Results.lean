import PolyCalc.Proofs.Expression.RoundTrip
import PolyCalc.Proofs.Poly.Supports
import PolyCalc.Proofs.Poly.Words

/-!
# Results Are in Normal Form

An operand may be anything: it can store zeros of either sign, infinities, and what is
no number at all. A polynomial that is read, or made of terms, or negated, can be such
an operand. The operations of arithmetic have no such results, since each of them leaves
no zero term behind, and everything else that is expected of a result follows from that.

A `Formula` is a calculation with any number of operations, in which quotients and
remainders may be operands again. Its operands are arbitrary, and it has a value unless
a divisor in it is zero. Whatever the value is, it is in normal form, unless the formula
is an operand and nothing more.

## Main definitions

* `IsNormal`: What is expected of a result.
* `Arithmetic.result?`: The result of an operation.
* `Formula`, `Formula.value?`: Calculations of any length and their values.
* `IsNormalDivision`: What is expected of the outcome of a division.

## Theorems

* `text_eq_zero_iff`: When a zero is written.
* `ZeroFree.isNormal`: Without zero terms a polynomial is in normal form.
* `isNormalDivision_of_divide`: Division has the outcome that is expected of it.
* `Formula.zeroFree_value`: An operation leaves no zero term.
* `arithmetic_restores_normalForm`: What arithmetic does with arbitrary operands.
-/

namespace PolyCalc

namespace Poly

/-! ## Normal form -/

/-- A zero is written for a polynomial without a term to write, and for no other. A
    text that reads as a zero polynomial was written for one. -/
theorem text_eq_zero_iff {p : Poly Float} : p.text = "0" ↔ p.prune.terms = [] := by
  constructor
  · intro h
    -- The text is that of the empty polynomial, and it reads as both of them.
    obtain ⟨q, hq, hprune⟩ := Expression.parse_text_of_nil (p := empty) rfl
    have hread : Expression.parse p.text = .ok q := h ▸ hq
    obtain ⟨r, hr, hback⟩ :=
      Expression.parse_text_of_isReadable (Expression.isReadable_of_parse_text hread)
    rw [hread] at hr
    cases hr
    rw [← hback, hprune]
    rfl
  · intro h
    rw [text, chars, writtenTerms_eq_nil_iff.2 h]

/-- What is expected of a result: it stores no zero, so it is zero only if it has no
    term, its degree is that of a coefficient that is not zero, and its text shows
    all its terms, one after the other from the highest exponent down. -/
structure IsNormal (p : Poly Float) : Prop where
  zeroFree : p.ZeroFree
  isZero_iff : p.isZero = true ↔ p.isEmpty = true
  degree : p.isEmpty = false →
    ∃ c, p.get? p.degree = some c ∧ Coefficient.isZero c = false
  addends : p.isEmpty = false → Text.addends p.text.toList = p.terms.reverse.map Term.chars
  length_addends : p.isEmpty = false → (Text.addends p.text.toList).length = p.size
  text_iff : p.text = "0" ↔ p.isEmpty = true

theorem ZeroFree.isNormal {p : Poly Float} (h : p.ZeroFree) : p.IsNormal := by
  have hprune := prune_eq_self h
  have haddends : p.isEmpty = false →
      Text.addends p.text.toList = p.terms.reverse.map Term.chars := by
    intro hne
    have hwritten : p.writtenTerms ≠ [] := by
      rw [Ne, writtenTerms_eq_nil_iff, hprune]
      exact List.isEmpty_eq_false_iff.1 hne
    rw [addends_text, if_neg hwritten, writtenTerms, hprune]
  constructor
  case zeroFree => exact h
  case isZero_iff => rw [h.isZero_iff, isEmpty, List.isEmpty_iff]
  case degree =>
    intro hne
    cases hlead : p.leadingTerm? with
    | none => exact absurd (leadingTerm?_eq_none_iff.1 hlead) (List.isEmpty_eq_false_iff.1 hne)
    | some lead =>
        have hmem := mem_of_leadingTerm? hlead
        rw [degree_of_leadingTerm? hlead]
        exact ⟨lead.coefficient, get?_eq_some_iff.2 hmem, h lead hmem⟩
  case addends => exact haddends
  case length_addends =>
    intro hne
    simp [haddends hne, size]
  case text_iff => rw [text_eq_zero_iff, hprune, isEmpty, List.isEmpty_iff]

end Poly

/-! ## Calculations of any length -/

/-- The operations of arithmetic, with a division for each of its outcomes. -/
inductive Arithmetic where
  | add
  | subtract
  | multiply
  | quotient
  | remainder
deriving DecidableEq, Repr

/-- A calculation with operands of any kind. -/
inductive Formula (K : Type) where
  | operand (p : Poly K)
  | apply (operation : Arithmetic) (f g : Formula K)

section Values

variable {K : Type} [Coefficient K]

/-- The result of an operation. There is none where the divisor has no coefficient but
    zeros. -/
def Arithmetic.result? (p q : Poly K) : Arithmetic → Option (Poly K)
  | add => some (p.add q)
  | subtract => some (p.subtract q)
  | multiply => some (p.multiply q)
  | quotient => (p.divide q).map Division.quotient
  | remainder => (p.divide q).map Division.remainder

/-- The value of a calculation. -/
def Formula.value? : Formula K → Option (Poly K)
  | operand p => some p
  | apply operation f g => do operation.result? (← f.value?) (← g.value?)

/-- Is no operation performed? -/
def Formula.isOperand : Formula K → Bool
  | operand _ => true
  | apply _ _ _ => false

/-- Neither outcome of a division has a zero term. -/
theorem Poly.zeroFree_of_divide {p divisor : Poly K} {result : Division K}
    (h : p.divide divisor = some result) :
    result.quotient.ZeroFree ∧ result.remainder.ZeroFree := by
  obtain ⟨lead, -, hrun⟩ := reduction_of_divide h
  exact ⟨hrun.zeroFree_quotient, hrun.zeroFree_remainder (zeroFree_prune p)⟩

theorem Arithmetic.zeroFree_result {operation : Arithmetic} {p q r : Poly K}
    (h : operation.result? p q = some r) : r.ZeroFree := by
  cases operation with
  | add =>
      cases h
      exact Poly.zeroFree_add p q
  | subtract =>
      cases h
      exact Poly.zeroFree_subtract p q
  | multiply =>
      cases h
      exact Poly.zeroFree_multiply p q
  | quotient =>
      obtain ⟨d, hd, rfl⟩ := Option.map_eq_some_iff.1 h
      exact (Poly.zeroFree_of_divide hd).1
  | remainder =>
      obtain ⟨d, hd, rfl⟩ := Option.map_eq_some_iff.1 h
      exact (Poly.zeroFree_of_divide hd).2

/-- The last operation of a calculation leaves no zero term, whatever it was given. -/
theorem Formula.zeroFree_value {f : Formula K} {p : Poly K} (hoperation : f.isOperand = false)
    (h : f.value? = some p) : p.ZeroFree := by
  cases f with
  | operand q => cases hoperation
  | apply operation f g =>
      simp only [value?, Option.bind_eq_bind, Option.bind_eq_some_iff] at h
      obtain ⟨q, -, r, -, h⟩ := h
      exact Arithmetic.zeroFree_result h

end Values

namespace Poly

/-- What is expected of the outcome of a division of `p` by `divisor`. -/
structure IsNormalDivision (p divisor : Poly Float) (result : Division Float) : Prop where
  zeroFree_quotient : result.quotient.ZeroFree
  zeroFree_remainder : result.remainder.ZeroFree
  exponents_quotient : ∀ e ∈ result.quotient.exponents,
    ∃ s ∈ result.steps, s.quotientTerm.exponent = e
  exponents_remainder : ∀ e ∈ result.remainder.exponents, e ∈ p.exponents
    ∨ ∃ s ∈ result.steps, ∃ d ∈ divisor.exponents, s.quotientTerm.exponent + d = e
  isExact_iff : result.isExact = true ↔ result.remainder.isEmpty = true

theorem isNormalDivision_of_divide {p divisor : Poly Float} {result : Division Float}
    (h : p.divide divisor = some result) : IsNormalDivision p divisor result := by
  obtain ⟨hquotient, hremainder⟩ := zeroFree_of_divide h
  obtain ⟨lead, -, hrun⟩ := reduction_of_divide h
  constructor
  case zeroFree_quotient => exact hquotient
  case zeroFree_remainder => exact hremainder
  case exponents_quotient =>
    intro e he
    -- The quotient starts without a term.
    exact (hrun.mem_exponents_quotient he).resolve_left List.not_mem_nil
  case exponents_remainder =>
    intro e he
    -- Both operands were pruned, which adds no exponent to either.
    rcases hrun.mem_exponents_remainder he with hold | ⟨s, hs, d, hd, hsum⟩
    · exact .inl (mem_exponents_of_mem_filter hold)
    · exact .inr ⟨s, hs, d, mem_exponents_of_mem_filter hd, hsum⟩
  case isExact_iff => exact hremainder.isNormal.isZero_iff

/-- The results of arithmetic are in normal form for operands of any kind. No result
    stores a zero; the exponents of a sum and of a difference are exponents of the
    operands, and those of a product are sums of two. Division by a divisor with a
    non-zero coefficient succeeds, and both of its outcomes store no zero either; an
    exponent of the remainder is one of the dividend, or the sum of the exponents of
    a quotient term and of a term of the divisor. So the value of any calculation
    with an operation in it is in normal form. -/
theorem arithmetic_restores_normalForm :
    (∀ p q : Poly Float,
        (p.add q).ZeroFree
          ∧ (∀ e ∈ (p.add q).exponents, e ∈ p.exponents ∨ e ∈ q.exponents)
          ∧ (p.subtract q).ZeroFree
          ∧ (∀ e ∈ (p.subtract q).exponents, e ∈ p.exponents ∨ e ∈ q.exponents)
          ∧ (p.multiply q).ZeroFree
          ∧ ∀ e ∈ (p.multiply q).exponents, ∃ d ∈ p.exponents, ∃ f ∈ q.exponents, d + f = e)
      ∧ (∀ p divisor : Poly Float,
        (∃ t ∈ divisor.terms, Coefficient.isZero t.coefficient = false) →
          ∃ result, p.divide divisor = some result ∧ IsNormalDivision p divisor result)
      ∧ ∀ (f : Formula Float) (p : Poly Float),
        f.isOperand = false → f.value? = some p → p.IsNormal := by
  refine ⟨fun p q => ⟨zeroFree_add p q, fun e => mem_exponents_add, zeroFree_subtract p q,
    fun e => mem_exponents_subtract, zeroFree_multiply p q, fun e => mem_exponents_multiply⟩,
    ?_, ?_⟩
  · intro p divisor hdivisor
    obtain ⟨result, hresult⟩ := exists_divide p hdivisor
    exact ⟨result, hresult, isNormalDivision_of_divide hresult⟩
  · intro f p hoperation hvalue
    exact (Formula.zeroFree_value hoperation hvalue).isNormal

end Poly

end PolyCalc
