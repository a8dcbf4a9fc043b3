import PolyCalc.Expression.Parser
import PolyCalc.Proofs.Binary64.Written
import PolyCalc.Proofs.Expression.Grammar
import PolyCalc.Proofs.Fallible
import PolyCalc.Proofs.Poly.NormalForm

/-!
# What Written Terms Denote

A raw term of the grammar always has an exponent, but the exponent has a value
only within the limit. `RawTerm.degree` is the exponent without the limit, so
what a text says can be told apart from whether it is accepted, and evaluating
the exponent is deciding the limit. It is the only decision: a number of the
grammar always has a value, so no coefficient is ever faulty.

A text is evaluated term by term. It has a value exactly if each of its terms
has one, and the first term without one is the fault of the text. A text has at
least one term, and something is stored for it, so a text that was evaluated is
never refused in the end.

## Main definitions

* `RawTerm.degree`: The exponent that a term is written with.
* `RawTerm.Denotes`: The term that a raw term stands for.

## Theorems

* `exists_denotes`: Every term of the grammar stands for a term.
* `exponentValue_of_le`, `exponentValue_of_lt`: The limit decides.
* `value_of_le`, `value_of_lt`: It decides about the term as well.
* `exponent_le_of_value`: No value is beyond the limit.
* `isEmpty_ofTerms_of_tokenize`: A text that was evaluated is not refused.
* `parseStripped_eq_ok_iff`: The texts that have a value.
* `parseStripped_of_denotes`: A text within the limit has the value it denotes.
* `parseStripped_of_find?`: The first exponent beyond the limit is the fault.
* `parseStripped_of_lt`: One exponent beyond the limit makes the text faulty.
* `exponent_le_of_parse`: A text that was accepted is within the limit.
-/

namespace PolyCalc

/-- The exponent that a term is written with, within the limit or not. -/
def RawTerm.degree (r : RawTerm) : Nat :=
  match r.shape, r.exponent with
  | .constant, _ => 0
  | _, none => 1
  | _, some digits => Binary64.digitsValue digits

/-- The number of a raw term is the coefficient of a term, and the exponent that
    it is written with is the exponent of the term. -/
structure RawTerm.Denotes (r : RawTerm) (t : Term Float) : Prop where
  wellFormed : r.WellFormed
  coefficient : r.coefficientValue = .ok t.coefficient
  degree : r.degree = t.exponent

namespace Expression

/-! ## Coefficients -/

/-- A number of the grammar starts with no sign and with no letter, so it is read as a
    decimal. -/
theorem readNumber_of_isUnsignedNumber {number : List Char} {d : Binary64.Decimal}
    (h : IsUnsignedNumber number) (hd : Binary64.readDecimal number = some d) :
    Binary64.readNumber number = some d.nearest := by
  rcases exists_cons_of_isUnsignedNumber h with ⟨c, tail, rfl, hc⟩
  rw [prolongsNumber, Bool.or_eq_true, beq_iff_eq] at hc
  rcases hc with hc | rfl
  · rw [Binary64.readNumber_of_digit hc, Binary64.readMagnitude_of_digit hc, hd, Option.map_some]
  · have hmagnitude : Binary64.readNumber ('.' :: tail) = Binary64.readMagnitude ('.' :: tail) :=
      rfl
    rw [hmagnitude, Binary64.readMagnitude_cons (by decide) (by decide), hd, Option.map_some]

theorem exists_readNumber {number : List Char} (h : IsUnsignedNumber number) :
    ∃ x, Binary64.readNumber number = some x := by
  rcases Binary64.exists_readDecimal h with ⟨d, hd⟩
  exact ⟨d.nearest, readNumber_of_isUnsignedNumber h hd⟩

theorem coefficientValue_of_readNumber {r : RawTerm} {number : List Char} {x : Float}
    (hnumber : r.coefficient = some number) (hx : Binary64.readNumber number = some x) :
    r.coefficientValue = .ok (if r.sign = some '-' then -x else x) := by
  rw [RawTerm.coefficientValue, hnumber]
  simp only [hx]
  rfl

theorem coefficientValue_of_none {r : RawTerm} (h : r.coefficient = none) :
    r.coefficientValue = .ok (if r.sign = some '-' then -1 else 1) := by
  rw [RawTerm.coefficientValue, h]
  rfl

/-- A term of the grammar has no number or one of the grammar. -/
theorem coefficient_eq_of_wellFormed {r : RawTerm} (h : r.WellFormed) :
    r.coefficient = none ∨ ∃ number, r.coefficient = some number ∧ IsUnsignedNumber number := by
  have hshape := h.coefficient
  cases hr : r.shape with
  | bare =>
      rw [hr] at hshape
      exact .inl hshape
  | scaled | constant =>
      rw [hr] at hshape
      exact .inr hshape

theorem exists_coefficientValue {r : RawTerm} (h : r.WellFormed) :
    ∃ c, r.coefficientValue = .ok c := by
  rcases coefficient_eq_of_wellFormed h with hnone | ⟨number, hsome, hnumber⟩
  · exact ⟨_, coefficientValue_of_none hnone⟩
  · rcases exists_readNumber hnumber with ⟨x, hx⟩
    exact ⟨_, coefficientValue_of_readNumber hsome hx⟩

/-- Every term of the grammar stands for a term, with an exponent that may lie beyond
    the limit. -/
theorem exists_denotes {r : RawTerm} (h : r.WellFormed) : ∃ t, r.Denotes t := by
  rcases exists_coefficientValue h with ⟨c, hc⟩
  exact ⟨⟨r.degree, c⟩, h, hc, rfl⟩

/-! ## The limit -/

/-- Digits are evaluated as they are, since the sign that may stand before them
    is not one of them. -/
theorem readExponent_of_isDigits {digits : List Char} (h : IsDigits digits) :
    readExponent digits
      = if Binary64.digitsValue digits ≤ maxWrittenExponent then
          some (Binary64.digitsValue digits)
        else none := by
  have hall : digits.all Char.isDigit = true := List.all_eq_true.2 h.2
  have hlimit : (digits ≠ [] ∧ digits.all Char.isDigit
      ∧ Binary64.digitsValue digits ≤ maxWrittenExponent)
        ↔ Binary64.digitsValue digits ≤ maxWrittenExponent :=
    ⟨fun hcond => hcond.2.2, fun hle => ⟨h.1, hall, hle⟩⟩
  unfold readExponent
  simp only
  split
  · exact absurd (h.2 '+' List.mem_cons_self) (by decide)
  · rw [if_congr hlimit rfl rfl]

theorem exponentValue_of_le {r : RawTerm} (h : r.WellFormed)
    (hle : r.degree ≤ maxWrittenExponent) : r.exponentValue = .ok r.degree := by
  rcases r with ⟨sign, shape, coefficient, exponent⟩
  cases shape with
  | constant => rfl
  | scaled | bare =>
      rcases h.exponent with hnone | ⟨digits, hsome, hdigits⟩
      · cases hnone
        rfl
      · cases hsome
        have hread : readExponent digits = some (Binary64.digitsValue digits) :=
          (readExponent_of_isDigits hdigits).trans (if_pos hle)
        simp only [RawTerm.exponentValue, hread]
        rfl

theorem exponentValue_of_lt {r : RawTerm} (h : r.WellFormed)
    (hlt : maxWrittenExponent < r.degree) :
    ∃ digits, r.exponent = some digits
      ∧ r.exponentValue = .error (.exponentOutOfRange (String.ofList digits)) := by
  rcases r with ⟨sign, shape, coefficient, exponent⟩
  cases shape with
  | constant => exact absurd hlt (Nat.not_lt_zero _)
  | scaled | bare =>
      rcases h.exponent with hnone | ⟨digits, hsome, hdigits⟩
      · cases hnone
        exact absurd (show maxWrittenExponent < 1 from hlt) (by decide)
      · cases hsome
        have hread : readExponent digits = none :=
          (readExponent_of_isDigits hdigits).trans (if_neg (Nat.not_le_of_lt hlt))
        refine ⟨digits, rfl, ?_⟩
        simp only [RawTerm.exponentValue, hread]
        rfl

/-- A term within the limit has the value it denotes. -/
theorem value_of_le {r : RawTerm} {t : Term Float} (h : r.Denotes t)
    (hle : t.exponent ≤ maxWrittenExponent) : r.value = .ok t := by
  have hexponent : r.exponentValue = .ok t.exponent := by
    rw [exponentValue_of_le h.wellFormed (h.degree ▸ hle), h.degree]
  rw [RawTerm.value, h.coefficient, hexponent]
  rfl

/-- A term beyond the limit has no value, and its exponent is the fault. -/
theorem value_of_lt {r : RawTerm} (h : r.WellFormed) (hlt : maxWrittenExponent < r.degree) :
    ∃ digits, r.exponent = some digits
      ∧ r.value = .error (.exponentOutOfRange (String.ofList digits)) := by
  rcases exists_coefficientValue h with ⟨c, hc⟩
  rcases exponentValue_of_lt h hlt with ⟨digits, hdigits, hfault⟩
  refine ⟨digits, hdigits, ?_⟩
  rw [RawTerm.value, hc, hfault]
  rfl

theorem exists_value_of_le {r : RawTerm} (h : r.WellFormed)
    (hle : r.degree ≤ maxWrittenExponent) : ∃ t, r.value = .ok t := by
  rcases exists_denotes h with ⟨t, ht⟩
  exact ⟨t, value_of_le ht (ht.degree ▸ hle)⟩

theorem exponent_le_of_readExponent {digits : List Char} {e : Nat}
    (h : readExponent digits = some e) : e ≤ maxWrittenExponent := by
  unfold readExponent at h
  simp only [Option.ite_none_right_eq_some, Option.some.injEq] at h
  obtain ⟨⟨-, -, hle⟩, rfl⟩ := h
  exact hle

/-- Whatever a term looks like, its exponent is within the limit if it has one. -/
theorem exponent_le_of_value {r : RawTerm} {t : Term Float} (h : r.value = .ok t) :
    t.exponent ≤ maxWrittenExponent := by
  obtain ⟨c, -, h⟩ := exists_of_bind_eq_ok h
  obtain ⟨e, he, h⟩ := exists_of_bind_eq_ok h
  cases h
  unfold RawTerm.exponentValue at he
  split at he
  · cases he
    exact Nat.zero_le _
  · cases he
    exact (by decide : 1 ≤ maxWrittenExponent)
  · split at he
    · cases he
    · rename_i hread
      cases he
      exact exponent_le_of_readExponent hread

theorem map_degree_of_denotes {raw : List RawTerm} {terms : List (Term Float)}
    (h : List.Forall₂ RawTerm.Denotes raw terms) :
    raw.map RawTerm.degree = terms.map Term.exponent := by
  induction h with
  | nil => rfl
  | cons ht _ ih => rw [List.map_cons, List.map_cons, ht.degree, ih]

/-! ## Texts -/

theorem mapM_value_of_denotes {raw : List RawTerm} {terms : List (Term Float)}
    (h : List.Forall₂ RawTerm.Denotes raw terms)
    (hle : ∀ t ∈ terms, t.exponent ≤ maxWrittenExponent) : raw.mapM RawTerm.value = .ok terms := by
  refine mapM_eq_ok_iff.2 ?_
  induction h with
  | nil => exact List.Forall₂.nil
  | cons ht _ ih =>
      refine List.Forall₂.cons (value_of_le ht (hle _ List.mem_cons_self)) (ih ?_)
      exact fun t ht => hle t (List.mem_cons_of_mem _ ht)

/-- The terms of a text that was evaluated are stored somewhere. -/
theorem isEmpty_ofTerms_of_tokenize {s : List Char} {raw : List RawTerm}
    {terms : List (Term Float)} (hread : tokenize s = .ok raw)
    (hvalues : raw.mapM RawTerm.value = .ok terms) : (Poly.ofTerms terms).isEmpty = false := by
  refine Poly.isEmpty_ofTerms fun hnil => ?_
  have hlength := (mapM_eq_ok_iff.1 hvalues).length_eq
  rw [hnil, List.length_nil, List.length_eq_zero_iff] at hlength
  exact (isReading_of_tokenize hread).nonempty hlength

/-- A text whose terms have values has their sum as its value. -/
theorem parseStripped_of_values {s : List Char} {raw : List RawTerm} {terms : List (Term Float)}
    (hread : tokenize s = .ok raw) (hvalues : raw.mapM RawTerm.value = .ok terms) :
    parseStripped s = .ok (Poly.ofTerms terms) := by
  have hstored := isEmpty_ofTerms_of_tokenize hread hvalues
  rw [parseStripped, hread]
  simp only [bind, Except.bind, hvalues, hstored]
  rfl

/-- No other text has a value. -/
theorem parseStripped_eq_ok_iff {s : List Char} {p : Poly Float} :
    parseStripped s = .ok p
      ↔ ∃ raw terms, tokenize s = .ok raw ∧ raw.mapM RawTerm.value = .ok terms
        ∧ p = Poly.ofTerms terms := by
  constructor
  · intro h
    rcases exists_of_bind_eq_ok h with ⟨raw, hread, h⟩
    rcases exists_of_bind_eq_ok h with ⟨terms, hvalues, h⟩
    simp only at h
    split at h
    · cases h
    · exact ⟨raw, terms, hread, hvalues, (Except.ok.inj h).symm⟩
  · rintro ⟨raw, terms, hread, hvalues, rfl⟩
    exact parseStripped_of_values hread hvalues

/-- A text has the sum of the terms it denotes as its value, if these are within
    the limit. -/
theorem parseStripped_of_denotes {s : List Char} {raw : List RawTerm} {terms : List (Term Float)}
    (hread : tokenize s = .ok raw) (h : List.Forall₂ RawTerm.Denotes raw terms)
    (hle : ∀ t ∈ terms, t.exponent ≤ maxWrittenExponent) :
    parseStripped s = .ok (Poly.ofTerms terms) :=
  parseStripped_of_values hread (mapM_value_of_denotes h hle)

/-- The first exponent of a text beyond the limit is its fault. -/
theorem parseStripped_of_find? {s : List Char} {raw : List RawTerm} {r : RawTerm}
    (hread : tokenize s = .ok raw)
    (hfirst : (raw.find? fun r => maxWrittenExponent < r.degree) = some r) :
    ∃ digits, r.exponent = some digits
      ∧ parseStripped s = .error (.exponentOutOfRange (String.ofList digits)) := by
  have hwell := (isReading_of_tokenize hread).wellFormed
  rcases List.find?_eq_some_iff_append.1 hfirst with ⟨hlt, before, after, hraw, hbefore⟩
  have hmem : r ∈ raw := List.mem_of_find?_eq_some hfirst
  rcases value_of_lt (hwell r hmem) (of_decide_eq_true hlt) with ⟨digits, hdigits, hfault⟩
  -- All terms before it are within the limit and have values.
  have hvalues : ∀ q ∈ before, ∃ t, q.value = .ok t := by
    intro q hq
    have hle : ¬maxWrittenExponent < q.degree := by simpa using hbefore q hq
    exact exists_value_of_le (hwell q (hraw ▸ List.mem_append_left _ hq)) (Nat.le_of_not_lt hle)
  refine ⟨digits, hdigits, ?_⟩
  rw [parseStripped, hread]
  simp only [bind, Except.bind, hraw, mapM_eq_error hvalues hfault]

/-- A text with one exponent beyond the limit is faulty. -/
theorem parseStripped_of_lt {s : List Char} {raw : List RawTerm} {terms : List (Term Float)}
    (hread : tokenize s = .ok raw) (h : List.Forall₂ RawTerm.Denotes raw terms) {t : Term Float}
    (ht : t ∈ terms) (hlt : maxWrittenExponent < t.exponent) :
    ∃ fault, parseStripped s = .error fault := by
  have hdegree : t.exponent ∈ raw.map RawTerm.degree := by
    rw [map_degree_of_denotes h]
    exact List.mem_map_of_mem ht
  rcases List.mem_map.1 hdegree with ⟨q, hq, hqt⟩
  cases hfirst : raw.find? fun r => maxWrittenExponent < r.degree with
  | none =>
      have hle := List.find?_eq_none.1 hfirst q hq
      rw [hqt] at hle
      exact absurd (decide_eq_true hlt) hle
  | some r =>
      rcases parseStripped_of_find? hread hfirst with ⟨digits, -, hfault⟩
      exact ⟨_, hfault⟩

/-- A text that was accepted stores no exponent beyond the limit. -/
theorem exponent_le_of_parse {text : String} {p : Poly Float} (h : parse text = .ok p)
    {t : Term Float} (ht : t ∈ p.terms) : t.exponent ≤ maxWrittenExponent := by
  rcases parseStripped_eq_ok_iff.1 h with ⟨raw, terms, -, hvalues, rfl⟩
  -- What is stored somewhere was written there.
  rcases Poly.exponent_of_mem_accumulateAll ht with ⟨s, hs, -⟩ | ⟨s, hs, he⟩
  · cases hs
  · obtain ⟨r, -, hr⟩ := exists_of_mem_of_mapM_eq_ok hvalues hs
    exact he ▸ exponent_le_of_value hr

/-- A text that is not of the grammar is faulty. -/
theorem parseStripped_of_error {s : List Char} {fault : FormatFault}
    (hread : tokenize s = .error fault) : parseStripped s = .error fault := by
  rw [parseStripped, hread]
  rfl

end Expression

end PolyCalc
