import PolyCalc.Proofs.Binary64.Laws
import PolyCalc.Proofs.Expression.Rendering
import PolyCalc.Proofs.Poly.NormalForm

/-!
# Texts Are Read Back

The text of a polynomial names every term that is not zero, once and in
descending order of exponents, so reading it back is accumulating these terms
from the highest exponent down. A sum from zero keeps each of them, since none is
zero, and what comes back is the polynomial without its zero terms. A polynomial
without a term to write is written as a zero, which comes back as a stored zero.

Two things stand in the way of reading. A coefficient that is not finite is
written with letters and makes the text no text of the grammar, and an exponent
can be stored and written beyond the limit for written exponents. A polynomial
that has neither among its terms that are not zero is readable, and no other is.

## Main definitions

* `Poly.IsReadable`: What is written is finite and within the limit.

## Theorems

* `tokenize_text`: What a text with finite coefficients is read as.
* `parse_text_of_isReadable`: A readable polynomial is read back.
* `parse_text_of_not_isReadable`: Any other text is faulty.
* `parse_text_roundTrip`: The three together.
-/

namespace PolyCalc

namespace Poly

/-- Every stored coefficient that is not zero is finite and has an exponent within
    the limit for written exponents. -/
def IsReadable (p : Poly Float) : Prop :=
  ∀ t ∈ p.terms, Coefficient.isZero t.coefficient = false →
    t.coefficient.isFinite = true ∧ t.exponent ≤ maxWrittenExponent

theorem mem_writtenTerms {p : Poly Float} {t : Term Float} :
    t ∈ p.writtenTerms ↔ t ∈ p.terms ∧ Coefficient.isZero t.coefficient = false := by
  rw [writtenTerms, List.mem_reverse, mem_prune]

theorem writtenTerms_eq_nil_iff {p : Poly Float} : p.writtenTerms = [] ↔ p.prune.terms = [] :=
  List.reverse_eq_nil_iff

/-- The terms are written in descending order. -/
theorem descending_writtenTerms (p : Poly Float) :
    p.writtenTerms.Pairwise fun s t => t.exponent < s.exponent :=
  List.pairwise_reverse.2 p.prune.ascending

/-- The written terms, accumulated in the order of the text, are the polynomial
    without its zero terms. -/
theorem ofTerms_writtenTerms (p : Poly Float) : ofTerms p.writtenTerms = p.prune :=
  ofTerms_reverse fun _ ht => Binary64.add_eq_of_isZero Binary64.isZero_zero (mem_prune.1 ht).2

end Poly

namespace Expression

open Binary64

/-- Among the written terms the finite coefficients are those with a significand. -/
theorem hasParts_of_isFinite {p : Poly Float} {t : Term Float} (ht : t ∈ p.writtenTerms)
    (h : t.coefficient.isFinite = true) : HasParts t.coefficient :=
  (isFinite_iff_hasParts (Poly.mem_writtenTerms.1 ht).2).1 h

theorem toList_text (p : Poly Float) : p.text.toList = p.chars := String.toList_ofList

/-! ## The zero polynomial -/

/-- The raw term that stands for a polynomial without a term to write. -/
def zeroTerm : RawTerm := ⟨none, .constant, some ['0'], none⟩

theorem denotes_zeroTerm : zeroTerm.Denotes ⟨0, 0⟩ := by
  have hdigits : IsDigits ['0'] := Nat.toDigits_zero 10 ▸ isDigits_toDigits 0
  -- The digit denotes zero, and the double nearest to it is the positive zero.
  have hzero : ofMagnitude 0 = 0 := eq_of_unpack_eq rfl
  have hread : readNumber ['0'] = some 0 := by
    rw [readNumber_of_digit (by decide), readMagnitude_of_digit (by decide),
      readDecimal_digits hdigits]
    exact congrArg some hzero
  refine ⟨⟨.inl rfl, ⟨_, rfl, .inl hdigits⟩, rfl⟩, ?_, rfl⟩
  simp only [zeroTerm, RawTerm.coefficientValue, hread]
  rfl

theorem tokenize_zero : tokenize ['0'] = .ok [zeroTerm] := by
  refine tokenize_of_isReading ⟨List.cons_ne_nil _ _, fun r hr => ?_, fun r hr => ?_, rfl⟩
  · rw [List.mem_singleton.1 hr]
    exact denotes_zeroTerm.wellFormed
  · cases hr

theorem strip_text_of_nil {p : Poly Float} (h : p.writtenTerms = []) :
    Text.strip p.text.toList = ['0'] := by
  rw [toList_text, Poly.chars, h]
  rfl

/-- A zero is read back as a stored zero. -/
theorem parse_text_of_nil {p : Poly Float} (h : p.writtenTerms = []) :
    ∃ q, parse p.text = .ok q ∧ q.prune = p.prune := by
  have hread : tokenize (Text.strip p.text.toList) = .ok [zeroTerm] := by
    rw [strip_text_of_nil h, tokenize_zero]
  have hdenotes : List.Forall₂ RawTerm.Denotes [zeroTerm] [⟨0, 0⟩] :=
    List.Forall₂.cons denotes_zeroTerm List.Forall₂.nil
  -- The zero is stored, and pruning removes it.
  refine ⟨_, parseStripped_of_denotes hread hdenotes (by decide), ?_⟩
  refine Poly.eq_of_terms_eq ?_
  rw [Poly.writtenTerms_eq_nil_iff.1 h]
  rfl

/-! ## Readable polynomials -/

/-- The text of a polynomial with finite coefficients is read as its terms that are
    not zero, or as a single zero. -/
theorem tokenize_text {p : Poly Float} (h : ∀ t ∈ p.terms, t.coefficient.isFinite = true) :
    ∃ raw, tokenize (Text.strip p.text.toList) = .ok raw
      ∧ (p.prune.terms = [] → raw = [zeroTerm])
      ∧ (p.prune.terms ≠ [] → List.Forall₂ RawTerm.Denotes raw p.prune.terms.reverse) := by
  by_cases hwritten : p.writtenTerms = []
  · have hnil := Poly.writtenTerms_eq_nil_iff.1 hwritten
    refine ⟨[zeroTerm], ?_, fun _ => rfl, fun hne => absurd hnil hne⟩
    rw [strip_text_of_nil hwritten, tokenize_zero]
  · have hparts : ∀ t ∈ p.writtenTerms, HasParts t.coefficient := by
      intro t ht
      exact hasParts_of_isFinite ht (h t (Poly.mem_writtenTerms.1 ht).1)
    refine ⟨renderedTerms p.writtenTerms, ?_, ?_, fun _ => denotes_renderedTerms hparts⟩
    · rw [toList_text, tokenize_chars hwritten hparts]
    · intro hnil
      exact absurd (Poly.writtenTerms_eq_nil_iff.2 hnil) hwritten

/-- A readable polynomial is read back up to its zero terms. -/
theorem parse_text_of_isReadable {p : Poly Float} (h : p.IsReadable) :
    ∃ q, parse p.text = .ok q ∧ q.prune = p.prune := by
  by_cases hwritten : p.writtenTerms = []
  · exact parse_text_of_nil hwritten
  · have hterm : ∀ t ∈ p.writtenTerms,
        t.coefficient.isFinite = true ∧ t.exponent ≤ maxWrittenExponent := by
      intro t ht
      rcases Poly.mem_writtenTerms.1 ht with ⟨hmem, hzero⟩
      exact h t hmem hzero
    have hparts : ∀ t ∈ p.writtenTerms, HasParts t.coefficient :=
      fun t ht => hasParts_of_isFinite ht (hterm t ht).1
    have hread : tokenize (Text.strip p.text.toList) = .ok (renderedTerms p.writtenTerms) := by
      rw [toList_text, tokenize_chars hwritten hparts]
    -- What is read back is pruned already.
    refine ⟨p.prune, ?_, Poly.prune_eq_self (Poly.zeroFree_prune p)⟩
    rw [parse, parseStripped_of_denotes hread (denotes_renderedTerms hparts)
      (fun t ht => (hterm t ht).2), Poly.ofTerms_writtenTerms]

/-- The text of any other polynomial is faulty, by a letter or by an exponent. -/
theorem parse_text_of_not_isReadable {p : Poly Float} (h : ¬p.IsReadable) :
    ∃ fault, parse p.text = .error fault := by
  rw [parse, toList_text]
  by_cases hfinite : ∀ t ∈ p.writtenTerms, t.coefficient.isFinite = true
  · have hparts : ∀ t ∈ p.writtenTerms, HasParts t.coefficient :=
      fun t ht => hasParts_of_isFinite ht (hfinite t ht)
    -- With all coefficients finite, what is missing is an exponent within the limit.
    have hlimit : ∃ t ∈ p.writtenTerms, maxWrittenExponent < t.exponent := by
      by_contra hnone
      refine h fun t hmem hzero => ?_
      have ht := Poly.mem_writtenTerms.2 ⟨hmem, hzero⟩
      exact ⟨hfinite t ht, Nat.le_of_not_lt fun hlt => hnone ⟨t, ht, hlt⟩⟩
    rcases hlimit with ⟨t, ht, hlt⟩
    have hwritten : p.writtenTerms ≠ [] := List.ne_nil_of_mem ht
    exact parseStripped_of_lt (tokenize_chars hwritten hparts) (denotes_renderedTerms hparts) ht hlt
  · rcases not_forall.1 hfinite with ⟨t, ht⟩
    rcases Classical.not_imp.1 ht with ⟨ht, hinfinite⟩
    rcases tokenize_chars_of_not_finite ht (Bool.eq_false_iff.2 hinfinite) with ⟨fault, hfault⟩
    exact ⟨fault, parseStripped_of_error hfault⟩

theorem isReadable_of_parse_text {p q : Poly Float} (hq : parse p.text = .ok q) :
    p.IsReadable := by
  by_contra h
  rcases parse_text_of_not_isReadable h with ⟨fault, hfault⟩
  rw [hq] at hfault
  cases hfault

/-- The text of a polynomial with finite coefficients is read as one raw term for
    each coefficient that is not zero, in descending order, or as a single zero.
    Exactly the readable polynomials have a text that is a polynomial, and it is
    the same one without its zero terms; every other text is faulty. -/
theorem parse_text_roundTrip (p : Poly Float) :
    ((∀ t ∈ p.terms, t.coefficient.isFinite = true) →
      ∃ raw, tokenize (Text.strip p.text.toList) = .ok raw
        ∧ (p.prune.terms = [] → raw = [⟨none, .constant, some ['0'], none⟩])
        ∧ (p.prune.terms ≠ [] → List.Forall₂ RawTerm.Denotes raw p.prune.terms.reverse)
        ∧ (raw.map RawTerm.degree).Pairwise (· > ·))
    ∧ ((∃ q, parse p.text = .ok q) ↔ p.IsReadable)
    ∧ (∀ q, parse p.text = .ok q → q.prune = p.prune)
    ∧ (¬p.IsReadable → ∃ fault, parse p.text = .error fault) := by
  refine ⟨?_, ?_, ?_, parse_text_of_not_isReadable⟩
  · intro hfinite
    rcases tokenize_text hfinite with ⟨raw, hread, hnil, hwritten⟩
    refine ⟨raw, hread, hnil, hwritten, ?_⟩
    by_cases hterms : p.prune.terms = []
    · rw [hnil hterms]
      exact List.pairwise_singleton _ _
    · have hdegrees : raw.map RawTerm.degree = p.prune.terms.reverse.map Term.exponent :=
        map_degree_of_denotes (hwritten hterms)
      rw [hdegrees, List.pairwise_map]
      exact Poly.descending_writtenTerms p
  · constructor
    · rintro ⟨q, hq⟩
      exact isReadable_of_parse_text hq
    · intro h
      rcases parse_text_of_isReadable h with ⟨q, hq, -⟩
      exact ⟨q, hq⟩
  · intro q hq
    rcases parse_text_of_isReadable (isReadable_of_parse_text hq) with ⟨q', hq', hprune⟩
    rw [hq] at hq'
    cases hq'
    exact hprune

end Expression

end PolyCalc
