import PolyCalc.Proofs.Expression.Grammar
import PolyCalc.Text.Blank

/-!
# The Alphabet of the Grammar

The grammar spells with digits, the point, the two signs, the caret and the
letter `x`. A text with any other character in it is read as nothing, wherever
the character stands, and removing the blanks of a text never removes a part of
a term.

## Main definitions

* `inAlphabet`: The characters of the grammar.

## Theorems

* `prolongsNumber_of_isUnsignedNumber`: Numbers are spelled with digits and a point.
* `inAlphabet_of_mem_chars`: Terms are spelled in the alphabet.
* `inAlphabet_of_tokenize`: So are the texts that are accepted.
* `isBlank_of_inAlphabet`: There is no blank in the alphabet.
-/

namespace PolyCalc

namespace Expression

/-- The characters of the grammar. -/
def inAlphabet (c : Char) : Bool :=
  prolongsNumber c || c == '+' || c == '-' || c == 'x' || c == '^'

theorem prolongsNumber_of_isDigit {c : Char} (h : c.isDigit = true) :
    prolongsNumber c = true := by
  rw [prolongsNumber, h]
  rfl

theorem inAlphabet_of_prolongsNumber {c : Char} (h : prolongsNumber c = true) :
    inAlphabet c = true := by
  rw [inAlphabet, h]
  rfl

theorem inAlphabet_of_isDigit {c : Char} (h : c.isDigit = true) : inAlphabet c = true :=
  inAlphabet_of_prolongsNumber (prolongsNumber_of_isDigit h)

/-- A number of the grammar has digits in it, a point perhaps, and nothing else. -/
theorem prolongsNumber_of_isUnsignedNumber {number : List Char} (h : IsUnsignedNumber number) :
    ∀ c ∈ number, prolongsNumber c = true := by
  intro c hc
  rcases h with ⟨-, hd⟩ | ⟨whole, fraction, ⟨-, hw⟩, hf, rfl⟩ | ⟨fraction, ⟨-, hf⟩, rfl⟩
  · exact prolongsNumber_of_isDigit (hd c hc)
  · rcases List.mem_append.1 hc with hc | hc
    · exact prolongsNumber_of_isDigit (hw c hc)
    · rcases List.mem_cons.1 hc with rfl | hc
      · rfl
      · rcases hf with rfl | ⟨-, hf⟩
        · cases hc
        · exact prolongsNumber_of_isDigit (hf c hc)
  · rcases List.mem_cons.1 hc with rfl | hc
    · rfl
    · exact prolongsNumber_of_isDigit (hf c hc)

theorem inAlphabet_of_isUnsignedNumber {number : List Char} (h : IsUnsignedNumber number) :
    ∀ c ∈ number, inAlphabet c = true :=
  fun c hc => inAlphabet_of_prolongsNumber (prolongsNumber_of_isUnsignedNumber h c hc)

theorem inAlphabet_of_mem_sign {sign : Option Char}
    (h : sign = none ∨ sign = some '+' ∨ sign = some '-') :
    ∀ c ∈ sign.toList, inAlphabet c = true := by
  intro c hc
  rcases h with rfl | rfl | rfl
  · cases hc
  · rw [List.mem_singleton.1 hc]
    rfl
  · rw [List.mem_singleton.1 hc]
    rfl

theorem inAlphabet_of_mem_powerSpelling {exponent : Option (List Char)}
    (h : exponent = none ∨ ∃ digits, exponent = some digits ∧ IsDigits digits) :
    ∀ c ∈ powerSpelling exponent, inAlphabet c = true := by
  intro c hc
  rcases List.mem_cons.1 hc with rfl | hc
  · rfl
  · rcases h with rfl | ⟨digits, rfl, hd⟩
    · cases hc
    · rcases List.mem_cons.1 hc with rfl | hc
      · rfl
      · exact inAlphabet_of_isDigit (hd.2 c hc)

/-- A term of the grammar is spelled in the alphabet. -/
theorem inAlphabet_of_mem_chars {r : RawTerm} (h : r.WellFormed) :
    ∀ c ∈ r.chars, inAlphabet c = true := by
  rcases r with ⟨sign, shape, number, exponent⟩
  have hsign := inAlphabet_of_mem_sign h.sign
  intro c hc
  cases shape with
  | scaled =>
      rcases h.coefficient with ⟨number, hsome, hnumber⟩
      cases hsome
      rw [chars_scaled] at hc
      rcases List.mem_append.1 hc with hc | hc
      · exact hsign c hc
      · rcases List.mem_append.1 hc with hc | hc
        · exact inAlphabet_of_isUnsignedNumber hnumber c hc
        · exact inAlphabet_of_mem_powerSpelling h.exponent c hc
  | constant =>
      rcases h.coefficient with ⟨number, hsome, hnumber⟩
      cases hsome
      rw [chars_constant] at hc
      rcases List.mem_append.1 hc with hc | hc
      · exact hsign c hc
      · exact inAlphabet_of_isUnsignedNumber hnumber c hc
  | bare =>
      cases h.coefficient
      rw [chars_bare] at hc
      rcases List.mem_append.1 hc with hc | hc
      · exact hsign c hc
      · exact inAlphabet_of_mem_powerSpelling h.exponent c hc

/-- A text of the grammar is spelled in the alphabet. -/
theorem inAlphabet_of_tokenize {s : List Char} {raw : List RawTerm} (h : tokenize s = .ok raw) :
    ∀ c ∈ s, inAlphabet c = true := by
  have hreading := isReading_of_tokenize h
  intro c hc
  rw [← hreading.spelled, spelling, List.mem_flatMap] at hc
  rcases hc with ⟨r, hr, hc⟩
  exact inAlphabet_of_mem_chars (hreading.wellFormed r hr) c hc

theorem isBlank_of_isDigit {c : Char} (h : c.isDigit = true) : Text.isBlank c = false := by
  simp only [Char.isDigit, Bool.and_eq_true, decide_eq_true_eq] at h
  -- The digits stand together, and no blank stands among them.
  have hlow : 48 ≤ c.toNat := UInt32.le_iff_toNat_le.1 h.1
  have hhigh : c.toNat ≤ 57 := UInt32.le_iff_toNat_le.1 h.2
  refine Bool.eq_false_iff.2 fun hblank => ?_
  simp only [Text.isBlank, Bool.or_eq_true, Bool.and_eq_true, decide_eq_true_eq] at hblank
  omega

/-- No character of the grammar is a blank. -/
theorem isBlank_of_inAlphabet {c : Char} (h : inAlphabet c = true) : Text.isBlank c = false := by
  simp only [inAlphabet, prolongsNumber, Bool.or_eq_true, beq_iff_eq] at h
  rcases h with ((((hdigit | rfl) | rfl) | rfl) | rfl) | rfl
  · exact isBlank_of_isDigit hdigit
  all_goals decide

end Expression

end PolyCalc
