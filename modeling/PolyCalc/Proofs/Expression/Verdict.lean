import PolyCalc.Proofs.Expression.Longest
import PolyCalc.Proofs.Expression.Values

/-!
# The Verdict on Every Text

A text can be wrong in several ways at once, and one fault is reported. Which one
it is depends on the text without its blanks alone, and this module says how, in
terms of the grammar and not of the readers: nothing to read comes first, then a
rest that is not grammatical, then the first exponent beyond the limit. A text
with none of these faults is a polynomial with at least one stored term.

Two more faults can be spelled out and never arise. A number of the grammar is
always a number, and a text that has a term stores it.

`Verdict` lists the four answers with what is known of the text in each. The
conditions exclude each other, so `verdict_parseStripped` decides in both
directions: the answer tells what the text is like, and the text has one answer.

## Main definitions

* `IsBare`: A text that holds nothing but, possibly, a sign.
* `IsBeyond`: An exponent is written that is beyond the limit.
* `Verdict`: The answers to a text without blanks.

## Theorems

* `exists_tokenize_of_not_inLanguage`: What is reported of a text that is not of the
  grammar.
* `verdict_parseStripped`: Every text has the answer it should have.
* `cause_eq_noTerms_iff`: No other message is that of a text without a term.
* `parse_reports_first_fault`: The answer to every text.
-/

namespace PolyCalc

namespace Expression

/-- A text that holds nothing but, possibly, a sign. -/
def IsBare (s : List Char) : Prop := s = [] ∨ s = ['+'] ∨ s = ['-']

/-- The exponent that a term is written with does not fit in 32 bits. -/
def IsBeyond (r : RawTerm) : Prop := 2 ^ 32 ≤ r.degree

instance (r : RawTerm) : Decidable (IsBeyond r) := inferInstanceAs (Decidable (_ ≤ _))

/-- The answers to a text without blanks. -/
inductive Verdict (s : List Char) : Except FormatFault (Poly Float) → Prop where
  | noTerms (hbare : IsBare s) : Verdict s (.error .noTerms)
  | invalidCharacters (left : List Char) (hbare : ¬IsBare s) (hout : ¬InLanguage s)
      (hleft : IsLeftOver s left) : Verdict s (.error (.invalidCharacters (String.ofList left)))
  | exponentOutOfRange (raw : List RawTerm) (r : RawTerm) (digits : List Char)
      (hreading : IsReading raw s) (hfirst : (raw.find? fun r => IsBeyond r) = some r)
      (hdigits : r.exponent = some digits) :
      Verdict s (.error (.exponentOutOfRange (String.ofList digits)))
  | polynomial (raw : List RawTerm) (p : Poly Float) (hreading : IsReading raw s)
      (hnone : (raw.find? fun r => IsBeyond r) = none) (hstored : p.terms ≠ []) :
      Verdict s (.ok p)

/-! ## Texts outside the grammar -/

theorem tokenize_of_isBare {s : List Char} (h : IsBare s) : tokenize s = .error .noTerms := by
  rw [tokenize]
  exact if_pos h

theorem IsReading.not_isBare {s : List Char} {raw : List RawTerm} (h : IsReading raw s) :
    ¬IsBare s := by
  intro hbare
  have hread := tokenize_of_isReading h
  rw [tokenize_of_isBare hbare] at hread
  cases hread

/-- What stands behind the longest text of the grammar is reported. -/
theorem exists_tokenize_of_not_inLanguage {s : List Char} (hbare : ¬IsBare s)
    (hout : ¬InLanguage s) :
    ∃ left, IsLeftOver s left ∧ tokenize s = .error (.invalidCharacters (String.ofList left)) := by
  unfold IsBare at hbare
  rw [tokenize, if_neg hbare]
  cases hread : readTerms s with
  | none => exact ⟨s, isLeftOver_of_readTerms_eq_none hread, rfl⟩
  | some result =>
      rcases result with ⟨terms, left⟩
      cases left with
      | nil => exact absurd ⟨terms, isReading_of_readTerms hread⟩ hout
      | cons c left => exact ⟨c :: left, isLeftOver_of_readTerms hread, rfl⟩

/-! ## Texts of the grammar -/

/-- The limit is the greatest number of 32 bits. -/
theorem find?_isBeyond (raw : List RawTerm) :
    (raw.find? fun r => IsBeyond r) = raw.find? fun r => maxWrittenExponent < r.degree := rfl

/-- A text of the grammar without an exponent beyond the limit is a polynomial. -/
theorem exists_parseStripped_of_find?_eq_none {s : List Char} {raw : List RawTerm}
    (hreading : IsReading raw s) (hnone : (raw.find? fun r => IsBeyond r) = none) :
    ∃ p, parseStripped s = .ok p ∧ p.terms ≠ [] := by
  have hread := tokenize_of_isReading hreading
  have hvalue : ∀ r ∈ raw, ∃ t, r.value = .ok t := by
    intro r hr
    have hle : ¬maxWrittenExponent < r.degree := by
      rw [find?_isBeyond] at hnone
      simpa using List.find?_eq_none.1 hnone r hr
    exact exists_value_of_le (hreading.wellFormed r hr) (Nat.le_of_not_lt hle)
  rcases exists_mapM_eq_ok hvalue with ⟨terms, hterms⟩
  refine ⟨Poly.ofTerms terms, parseStripped_of_values hread hterms, ?_⟩
  exact List.isEmpty_eq_false_iff.1 (isEmpty_ofTerms_of_tokenize hread hterms)

/-! ## All texts -/

theorem verdict_parseStripped (s : List Char) : Verdict s (parseStripped s) := by
  by_cases hbare : IsBare s
  · rw [parseStripped_of_error (tokenize_of_isBare hbare)]
    exact .noTerms hbare
  · by_cases hin : InLanguage s
    · rcases hin with ⟨raw, hreading⟩
      cases hfirst : raw.find? fun r => IsBeyond r with
      | none =>
          rcases exists_parseStripped_of_find?_eq_none hreading hfirst with ⟨p, hp, hstored⟩
          rw [hp]
          exact .polynomial raw p hreading hfirst hstored
      | some r =>
          have hread := tokenize_of_isReading hreading
          rcases parseStripped_of_find? hread hfirst with ⟨digits, hdigits, hfault⟩
          rw [hfault]
          exact .exponentOutOfRange raw r digits hreading hfirst hdigits
    · rcases exists_tokenize_of_not_inLanguage hbare hin with ⟨left, hleft, hread⟩
      rw [parseStripped_of_error hread]
      exact .invalidCharacters left hbare hin hleft

theorem IsReading.unique {s : List Char} {raw raw' : List RawTerm} (h : IsReading raw s)
    (h' : IsReading raw' s) : raw = raw' := by
  have hread := (tokenize_of_isReading h).symm.trans (tokenize_of_isReading h')
  exact Except.ok.inj hread

/-! ## Messages -/

theorem append_ne_of_head? {start : String} {c : Char} (h : start.toList.head? = some c)
    (hc : c ≠ 'n') (rest : String) : start ++ rest ≠ "no valid terms found" := by
  intro heq
  have hhead : (start ++ rest).toList.head? = some 'n' := by
    rw [heq]
    rfl
  rw [String.toList_append, List.head?_append, h] at hhead
  exact hc (Option.some.inj hhead)

/-- The message of a text without a term is told from all others by its first
    letter. -/
theorem cause_eq_noTerms_iff {fault : FormatFault} :
    fault.cause = "no valid terms found" ↔ fault = .noTerms := by
  constructor
  · intro h
    cases fault with
    | noTerms => rfl
    | invalidCharacters rest | invalidCoefficient rest =>
        have hcause := String.append_assoc.symm.trans h
        exact absurd hcause (append_ne_of_head? (c := 'i') rfl (by decide) _)
    | exponentOutOfRange rest =>
        have hcause := String.append_assoc.symm.trans h
        exact absurd hcause (append_ne_of_head? (c := 'e') rfl (by decide) _)
  · rintro rfl
    rfl

/-! ## The answer from the text -/

section

variable {s : List Char} {result : Except FormatFault (Poly Float)}

theorem Verdict.eq_noTerms_iff (h : Verdict s result) :
    result.mapError FormatFault.cause = .error "no valid terms found" ↔ IsBare s := by
  have hmessage {fault : FormatFault} (hne : fault ≠ .noTerms) :
      ¬(Except.error fault : Except FormatFault (Poly Float)).mapError FormatFault.cause
        = .error "no valid terms found" :=
    fun heq => hne (cause_eq_noTerms_iff.1 (Except.error.inj heq))
  cases h with
  | noTerms hbare => exact ⟨fun _ => hbare, fun _ => rfl⟩
  | invalidCharacters left hbare => exact iff_of_false (hmessage (by simp)) hbare
  | exponentOutOfRange raw r digits hreading =>
      exact iff_of_false (hmessage (by simp)) hreading.not_isBare
  | polynomial raw p hreading =>
      exact iff_of_false (fun heq => by cases heq) hreading.not_isBare

theorem Verdict.eq_invalidCharacters (h : Verdict s result) (hbare : ¬IsBare s)
    (hout : ¬InLanguage s) :
    (∃ left, IsLeftOver s left) ∧ ∀ left, IsLeftOver s left →
      result.mapError FormatFault.cause
        = .error ("invalid characters at '" ++ String.ofList left ++ "'") := by
  cases h with
  | noTerms h => exact absurd h hbare
  | invalidCharacters left _ _ hleft =>
      refine ⟨⟨left, hleft⟩, fun other hother => ?_⟩
      rw [hother.unique hleft]
      rfl
  | exponentOutOfRange raw r digits hreading => exact absurd ⟨raw, hreading⟩ hout
  | polynomial raw p hreading => exact absurd ⟨raw, hreading⟩ hout

theorem Verdict.of_isReading (h : Verdict s result) {raw : List RawTerm}
    (hreading : IsReading raw s) :
    match raw.find? fun r => IsBeyond r with
    | some r => ∃ digits, r.exponent = some digits
        ∧ result.mapError FormatFault.cause
          = .error ("exponent out of range '" ++ String.ofList digits ++ "'")
    | none => ∃ p, result.mapError FormatFault.cause = .ok p ∧ p.terms ≠ [] := by
  cases h with
  | noTerms hbare => exact absurd hbare hreading.not_isBare
  | invalidCharacters left _ hout => exact absurd ⟨raw, hreading⟩ hout
  | exponentOutOfRange raw' r digits hreading' hfirst hdigits =>
      rw [hreading.unique hreading', hfirst]
      exact ⟨digits, hdigits, rfl⟩
  | polynomial raw' p hreading' hnone hstored =>
      rw [hreading.unique hreading', hnone]
      exact ⟨p, rfl, hstored⟩

theorem Verdict.ne_invalidCoefficient (h : Verdict s result) (number : String) :
    result ≠ .error (.invalidCoefficient number) := by
  intro heq
  cases h with
  | noTerms | invalidCharacters | exponentOutOfRange | polynomial => cases heq

end

/-- The answer to every text depends on the text without its blanks. A text that
    holds nothing but a sign has no term. Any other text that is not of the grammar
    is faulty from where the longest text of the grammar in front of it ends. A
    text of the grammar is faulty for its first exponent beyond 32 bits, and if it
    has none it is a polynomial with a stored term. No coefficient is faulty, and
    no text that was evaluated is refused. -/
theorem parse_reports_first_fault (text : String) :
    let s := Text.strip text.toList
    let answer := (parse text).mapError FormatFault.cause
    (answer = .error "no valid terms found" ↔ s = [] ∨ s = ['+'] ∨ s = ['-'])
    ∧ (¬(s = [] ∨ s = ['+'] ∨ s = ['-']) → ¬InLanguage s →
        (∃ left, IsLeftOver s left)
        ∧ ∀ left, IsLeftOver s left →
            answer = .error ("invalid characters at '" ++ String.ofList left ++ "'"))
    ∧ (∀ raw, IsReading raw s →
        match raw.find? fun r => 2 ^ 32 ≤ r.degree with
        | some r => ∃ digits, r.exponent = some digits
            ∧ answer = .error ("exponent out of range '" ++ String.ofList digits ++ "'")
        | none => ∃ p, answer = .ok p ∧ p.terms ≠ [])
    ∧ (∀ number, parse text ≠ .error (.invalidCoefficient number))
    ∧ ∀ raw terms, tokenize s = .ok raw → raw.mapM RawTerm.value = .ok terms →
        (Poly.ofTerms terms).isEmpty = false := by
  intro s answer
  have hverdict : Verdict s (parse text) := verdict_parseStripped s
  exact ⟨hverdict.eq_noTerms_iff, hverdict.eq_invalidCharacters,
    fun raw hreading => hverdict.of_isReading hreading, hverdict.ne_invalidCoefficient,
    fun raw terms => isEmpty_ofTerms_of_tokenize⟩

end Expression

end PolyCalc
