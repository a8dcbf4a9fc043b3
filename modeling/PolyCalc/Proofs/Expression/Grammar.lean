import PolyCalc.Expression.Tokens

/-!
# Reading Is the Inverse of Spelling

The readers take as much as they can and choose between alternatives in a fixed
order. The grammar knows neither: a text is a list of terms spelled one after
the other, each but the first with a sign. This module proves that the two
describe the same language.

Each reader has a pair of lemmas. A `_sound` lemma says that what was read,
spelled out again and followed by the rest, is the text, and that it has the
form the grammar asks for. An `_append` lemma says that a well-formed piece in
front of a rest is read back as it is, provided that the rest cannot prolong
it. What may follow is different for each piece: a run of digits must not be
followed by a digit, a number neither by a digit nor by a point, a term only
by the sign of the next one. A sign can prolong nothing, and this is why the
greedy choices never take too much.

The chain of terms is then read back by induction, on the list of terms in one
direction and on the length of the text in the other.

## Main definitions

* `NotAhead`: The next character is not in a class.
* `TermEnd`: What may follow a term.
* `IsReading`: The terms of the grammar that spell a text.

## Theorems

* `readDigits_append`, `readDigits_sound`: Runs of digits.
* `readUnsigned_append`, `readUnsigned_sound`: Numbers.
* `readPower_append`, `readPower_sound`: The `x` of a term.
* `readTerm_append`, `readTerm_sound`: Terms.
* `readChain_append`, `readChain_sound`: Chains of signed terms.
* `exists_isReading_of_readTerms`: What is read is a reading of a part of the text.
* `tokenize_of_isReading`, `isReading_of_tokenize`: The two directions.
* `tokenize_eq_ok_iff_isReading`: A text is accepted with exactly its reading.
-/

namespace PolyCalc

namespace Expression

/-- The next character, if there is one, is not in a class. -/
def NotAhead (p : Char → Bool) (rest : List Char) : Prop := ∀ c ∈ rest.head?, p c = false

/-- A character that can prolong a number. -/
def prolongsNumber (c : Char) : Bool := c.isDigit || c == '.'

/-- What may follow a term: nothing, or the sign of the next term. -/
def TermEnd (rest : List Char) : Prop := ∀ c ∈ rest.head?, c = '+' ∨ c = '-'

theorem notAhead_cons {p : Char → Bool} {c : Char} {rest : List Char} (h : p c = false) :
    NotAhead p (c :: rest) := by
  intro d hd
  cases hd
  exact h

/-- A sign prolongs nothing that is not prolonged by either sign. -/
theorem TermEnd.notAhead {p : Char → Bool} {rest : List Char} (h : TermEnd rest)
    (hplus : p '+' = false) (hminus : p '-' = false) : NotAhead p rest := by
  intro c hc
  rcases h c hc with rfl | rfl
  · exact hplus
  · exact hminus

/-! ## Digits -/

theorem readDigits_append {digits rest : List Char} (hd : ∀ c ∈ digits, c.isDigit = true)
    (hr : NotAhead Char.isDigit rest) : readDigits (digits ++ rest) = (digits, rest) := by
  rw [readDigits, List.takeWhile_append_of_pos hd, List.dropWhile_append_of_pos hd]
  cases rest with
  | nil => rw [List.takeWhile_nil, List.dropWhile_nil, List.append_nil]
  | cons c rest =>
      have hc : ¬c.isDigit = true := by
        rw [hr c rfl]
        exact Bool.false_ne_true
      rw [List.takeWhile_cons_of_neg hc, List.dropWhile_cons_of_neg hc, List.append_nil]

theorem readDigits_of_notAhead {rest : List Char} (hr : NotAhead Char.isDigit rest) :
    readDigits rest = ([], rest) :=
  readDigits_append (List.forall_mem_nil _) hr

theorem readDigits_sound {s digits rest : List Char} (h : readDigits s = (digits, rest)) :
    s = digits ++ rest ∧ (∀ c ∈ digits, c.isDigit = true) ∧ NotAhead Char.isDigit rest := by
  rw [readDigits, Prod.mk.injEq] at h
  rcases h with ⟨rfl, rfl⟩
  -- Taking stops at the first character that is no digit, so none is ahead.
  refine ⟨List.takeWhile_append_dropWhile.symm, ?_, ?_⟩
  · intro c hc
    exact List.all_eq_true.1 List.all_takeWhile c hc
  · intro c hc
    have hhead := List.head?_dropWhile_not Char.isDigit s
    rw [Option.mem_def.1 hc] at hhead
    exact hhead

/-! ## Numbers -/

/-- Digits with no point behind them are the whole number. -/
theorem readUnsigned_of_whole {s whole rest : List Char} (hs : readDigits s = (whole, rest))
    (hne : whole ≠ []) (hr : NotAhead (· == '.') rest) : readUnsigned s = some (whole, rest) := by
  unfold readUnsigned
  rw [hs]
  split
  · rename_i heq
    cases heq
    exact absurd rfl hne
  · rename_i heq
    cases heq
    exact absurd rfl hne
  · rename_i after _ heq
    cases heq
    have hpoint := hr '.' rfl
    simp only [beq_self_eq_true, Bool.true_eq_false] at hpoint
  · rename_i heq
    cases heq
    rfl

/-- A point behind digits is taken with all digits behind it. -/
theorem readUnsigned_of_point {s whole after fraction rest : List Char}
    (hs : readDigits s = (whole, '.' :: after)) (hne : whole ≠ [])
    (hafter : readDigits after = (fraction, rest)) :
    readUnsigned s = some (whole ++ '.' :: fraction, rest) := by
  unfold readUnsigned
  rw [hs]
  split
  · rename_i heq
    cases heq
    exact absurd rfl hne
  · rename_i heq
    cases heq
    exact absurd rfl hne
  · rename_i heq
    cases heq
    rw [hafter]
  · rename_i hnot heq
    cases heq
    exact (hnot _ rfl).elim

/-- A point without digits before it is taken if digits follow. -/
theorem readUnsigned_of_fraction {s after fraction rest : List Char}
    (hs : readDigits s = ([], '.' :: after)) (hafter : readDigits after = (fraction, rest))
    (hne : fraction ≠ []) : readUnsigned s = some ('.' :: fraction, rest) := by
  unfold readUnsigned
  rw [hs]
  simp only [hafter]

theorem readUnsigned_append {number rest : List Char} (h : IsUnsignedNumber number)
    (hr : NotAhead prolongsNumber rest) : readUnsigned (number ++ rest) = some (number, rest) := by
  -- What prolongs a number is a digit or a point, so neither of them is ahead.
  have hdigit : NotAhead Char.isDigit rest := by
    intro c hc
    exact (Bool.or_eq_false_iff.1 (hr c hc)).1
  have hpoint : NotAhead (· == '.') rest := by
    intro c hc
    exact (Bool.or_eq_false_iff.1 (hr c hc)).2
  have hdot : ∀ tail : List Char, NotAhead Char.isDigit ('.' :: tail) := by
    intro tail
    exact notAhead_cons (by decide)
  rcases h with ⟨hne, hd⟩ | ⟨whole, fraction, ⟨hne, hd⟩, hf, rfl⟩ | ⟨fraction, ⟨hne, hd⟩, rfl⟩
  · exact readUnsigned_of_whole (readDigits_append hd hdigit) hne hpoint
  -- The digits in front stop at the point, those behind it where the number ends.
  · have hfraction : ∀ c ∈ fraction, c.isDigit = true := by
      rcases hf with rfl | hf
      · intro c hc
        cases hc
      · exact hf.2
    rw [List.append_assoc, List.cons_append]
    exact readUnsigned_of_point (readDigits_append hd (hdot _)) hne
      (readDigits_append hfraction hdigit)
  · exact readUnsigned_of_fraction (readDigits_of_notAhead (hdot _))
      (readDigits_append hd hdigit) hne

theorem readUnsigned_sound {s number rest : List Char}
    (h : readUnsigned s = some (number, rest)) :
    s = number ++ rest ∧ IsUnsignedNumber number := by
  unfold readUnsigned at h
  split at h
  · rename_i after hs
    rcases readDigits_sound hs with ⟨rfl, -, -⟩
    split at h
    · cases h
    · rename_i fraction tail hne hafter
      rcases readDigits_sound hafter with ⟨rfl, hd, -⟩
      cases h
      exact ⟨rfl, .inr (.inr ⟨fraction, ⟨fun hnil => hne hnil, hd⟩, rfl⟩)⟩
  · cases h
  · rename_i whole after hne hs
    rcases readDigits_sound hs with ⟨rfl, hd, -⟩
    cases hafter : readDigits after with
    | mk fraction tail =>
        rcases readDigits_sound hafter with ⟨rfl, hf, -⟩
        rw [hafter] at h
        cases h
        refine ⟨by rw [List.append_assoc, List.cons_append], .inr (.inl ⟨whole, fraction,
          ⟨fun hnil => hne hnil, hd⟩, ?_, rfl⟩)⟩
        -- The grammar asks for no digit behind a point that has digits before it.
        by_cases hnil : fraction = []
        · exact .inl hnil
        · exact .inr ⟨hnil, hf⟩
  · rename_i hne _ hs
    rcases readDigits_sound hs with ⟨rfl, hd, -⟩
    cases h
    exact ⟨rfl, .inl ⟨fun hnil => hne hnil, hd⟩⟩

/-! ## Powers -/

/-- The spelling of the `x` of a term with the digits of its exponent. -/
def powerSpelling (exponent : Option (List Char)) : List Char :=
  'x' :: (exponent.map fun digits => '^' :: digits).getD []

theorem readPower_append {exponent : Option (List Char)} {rest : List Char}
    (h : exponent = none ∨ ∃ s, exponent = some s ∧ IsDigits s) (hr : TermEnd rest) :
    readPower (powerSpelling exponent ++ rest) = some (exponent, rest) := by
  rcases h with rfl | ⟨digits, rfl, hne, hd⟩
  · -- Nothing but an `x`: the caret that would make more of it cannot follow.
    cases rest with
    | nil => rfl
    | cons c rest =>
        rcases hr c rfl with rfl | rfl
        · rfl
        · rfl
  -- A sign is no digit, so the exponent ends where its digits do.
  · have hread : readDigits (digits ++ rest) = (digits, rest) :=
      readDigits_append hd (hr.notAhead (by decide) (by decide))
    cases digits with
    | nil => exact absurd rfl hne
    | cons d digits =>
        simp only [powerSpelling, Option.map_some, Option.getD_some, List.cons_append,
          readPower] at hread ⊢
        rw [hread]

theorem readPower_sound {s rest : List Char} {exponent : Option (List Char)}
    (h : readPower s = some (exponent, rest)) :
    s = powerSpelling exponent ++ rest
      ∧ (exponent = none ∨ ∃ s, exponent = some s ∧ IsDigits s) := by
  unfold readPower at h
  split at h
  · rename_i after
    split at h
    · cases h
      exact ⟨rfl, .inl rfl⟩
    · rename_i digits tail hne hs
      rcases readDigits_sound hs with ⟨rfl, hd, -⟩
      cases h
      exact ⟨rfl, .inr ⟨digits, rfl, fun hnil => hne hnil, hd⟩⟩
  · cases h
    exact ⟨rfl, .inl rfl⟩
  · cases h

/-- Only an `x` can start a power. -/
theorem readPower_eq_none {rest : List Char} (hr : NotAhead (· == 'x') rest) :
    readPower rest = none := by
  unfold readPower
  split
  · have hx := hr 'x' rfl
    simp only [beq_self_eq_true, Bool.true_eq_false] at hx
  · have hx := hr 'x' rfl
    simp only [beq_self_eq_true, Bool.true_eq_false] at hx
  · rfl

/-! ## Terms -/

theorem readSign_append {sign : Option Char} {body : List Char}
    (h : sign = none ∨ sign = some '+' ∨ sign = some '-')
    (hb : NotAhead (fun c => c == '+' || c == '-') body) :
    readSign (sign.toList ++ body) = (sign, body) := by
  rcases h with rfl | rfl | rfl
  · rw [Option.toList_none, List.nil_append]
    unfold readSign
    split
    · have hc := hb '+' rfl
      simp only [beq_self_eq_true, Bool.true_or, Bool.true_eq_false] at hc
    · have hc := hb '-' rfl
      simp only [beq_self_eq_true, Bool.or_true, Bool.true_eq_false] at hc
    · rfl
  · rfl
  · rfl

theorem readSign_sound {s body : List Char} {sign : Option Char}
    (h : readSign s = (sign, body)) :
    s = sign.toList ++ body ∧ (sign = none ∨ sign = some '+' ∨ sign = some '-') := by
  unfold readSign at h
  split at h
  · cases h
    exact ⟨rfl, .inr (.inl rfl)⟩
  · cases h
    exact ⟨rfl, .inr (.inr rfl)⟩
  · cases h
    exact ⟨rfl, .inl rfl⟩

/-- A number starts with a digit or a point. -/
theorem exists_cons_of_isUnsignedNumber {number : List Char} (h : IsUnsignedNumber number) :
    ∃ c tail, number = c :: tail ∧ prolongsNumber c = true := by
  rcases h with ⟨hne, hd⟩ | ⟨whole, fraction, ⟨hne, hd⟩, -, rfl⟩ | ⟨fraction, -, rfl⟩
  · rcases List.exists_cons_of_ne_nil hne with ⟨c, tail, rfl⟩
    refine ⟨c, tail, rfl, ?_⟩
    rw [prolongsNumber, hd c List.mem_cons_self, Bool.true_or]
  · rcases List.exists_cons_of_ne_nil hne with ⟨c, tail, rfl⟩
    refine ⟨c, tail ++ '.' :: fraction, rfl, ?_⟩
    rw [prolongsNumber, hd c List.mem_cons_self, Bool.true_or]
  · exact ⟨'.', fraction, rfl, rfl⟩

/-- A number starts with no sign. -/
theorem notAhead_sign_of_isUnsignedNumber {number : List Char} (h : IsUnsignedNumber number)
    (rest : List Char) : NotAhead (fun c => c == '+' || c == '-') (number ++ rest) := by
  rcases exists_cons_of_isUnsignedNumber h with ⟨c, tail, rfl, hc⟩
  refine notAhead_cons (Bool.eq_false_iff.2 fun hsign => ?_)
  rw [Bool.or_eq_true, beq_iff_eq, beq_iff_eq] at hsign
  rcases hsign with rfl | rfl
  · exact absurd hc (by decide)
  · exact absurd hc (by decide)

/-- No number starts where an `x` stands. -/
theorem readUnsigned_cons_x (rest : List Char) : readUnsigned ('x' :: rest) = none := by
  have hread : readDigits ('x' :: rest) = ([], 'x' :: rest) :=
    readDigits_of_notAhead (notAhead_cons (by decide))
  unfold readUnsigned
  rw [hread]
  rfl

theorem readTerm_of_scaled {s body tail number rest : List Char} {sign : Option Char}
    {exponent : Option (List Char)} (hs : readSign s = (sign, body))
    (hnumber : readUnsigned body = some (number, tail))
    (hpower : readPower tail = some (exponent, rest)) :
    readTerm s = some (⟨sign, .scaled, some number, exponent⟩, rest) := by
  unfold readTerm
  simp only [hs, hnumber, hpower]

theorem readTerm_of_constant {s body number rest : List Char} {sign : Option Char}
    (hs : readSign s = (sign, body)) (hnumber : readUnsigned body = some (number, rest))
    (hpower : readPower rest = none) :
    readTerm s = some (⟨sign, .constant, some number, none⟩, rest) := by
  unfold readTerm
  simp only [hs, hnumber, hpower]

theorem readTerm_of_bare {s body rest : List Char} {sign : Option Char}
    {exponent : Option (List Char)} (hs : readSign s = (sign, body))
    (hnumber : readUnsigned body = none) (hpower : readPower body = some (exponent, rest)) :
    readTerm s = some (⟨sign, .bare, none, exponent⟩, rest) := by
  unfold readTerm
  simp only [hs, hnumber, hpower]

theorem chars_scaled (sign : Option Char) (number : List Char) (exponent : Option (List Char)) :
    (⟨sign, .scaled, some number, exponent⟩ : RawTerm).chars
      = sign.toList ++ (number ++ powerSpelling exponent) :=
  List.append_assoc _ _ _

theorem chars_constant (sign : Option Char) (number : List Char) (exponent : Option (List Char)) :
    (⟨sign, .constant, some number, exponent⟩ : RawTerm).chars = sign.toList ++ number :=
  List.append_nil _

theorem chars_bare (sign : Option Char) (exponent : Option (List Char)) :
    (⟨sign, .bare, none, exponent⟩ : RawTerm).chars = sign.toList ++ powerSpelling exponent :=
  congrArg (· ++ powerSpelling exponent) (List.append_nil _)

/-- A well-formed term is read back in front of anything that may follow it. -/
theorem readTerm_append {t : RawTerm} {rest : List Char} (h : t.WellFormed) (hr : TermEnd rest) :
    readTerm (t.chars ++ rest) = some (t, rest) := by
  rcases t with ⟨sign, shape, coefficient, exponent⟩
  rcases h with ⟨hsign, hcoefficient, hexponent⟩
  simp only at hsign hcoefficient hexponent
  cases shape with
  | scaled =>
      rcases hcoefficient with ⟨number, rfl, hnumber⟩
      have hbody := notAhead_sign_of_isUnsignedNumber hnumber (powerSpelling exponent ++ rest)
      rw [chars_scaled, List.append_assoc, List.append_assoc]
      -- The `x` ends the number, and what may follow a term ends the exponent.
      exact readTerm_of_scaled (readSign_append hsign hbody)
        (readUnsigned_append hnumber (notAhead_cons (by decide))) (readPower_append hexponent hr)
  | constant =>
      rcases hcoefficient with ⟨number, rfl, hnumber⟩
      have hbody := notAhead_sign_of_isUnsignedNumber hnumber rest
      subst hexponent
      rw [chars_constant, List.append_assoc]
      -- A sign neither prolongs the number nor makes it the coefficient of an `x`.
      exact readTerm_of_constant (readSign_append hsign hbody)
        (readUnsigned_append hnumber (hr.notAhead (by decide) (by decide)))
        (readPower_eq_none (hr.notAhead (by decide) (by decide)))
  | bare =>
      subst hcoefficient
      rw [chars_bare, List.append_assoc]
      -- No number is read where the `x` stands, so the term is tried without one.
      exact readTerm_of_bare (readSign_append hsign (notAhead_cons (by decide)))
        (readUnsigned_cons_x _) (readPower_append hexponent hr)

/-- What is read as a term is well formed and spelled as the text has it. -/
theorem readTerm_sound {s rest : List Char} {t : RawTerm} (h : readTerm s = some (t, rest)) :
    s = t.chars ++ rest ∧ t.WellFormed := by
  cases hs : readSign s with
  | mk sign body =>
      rcases readSign_sound hs with ⟨rfl, hsign⟩
      unfold readTerm at h
      rw [hs] at h
      simp only at h
      split at h
      · rename_i number tail hnumber
        rcases readUnsigned_sound hnumber with ⟨rfl, hunsigned⟩
        split at h
        · rename_i exponent last hpower
          rcases readPower_sound hpower with ⟨rfl, hexponent⟩
          cases h
          refine ⟨?_, hsign, ⟨number, rfl, hunsigned⟩, hexponent⟩
          rw [chars_scaled, List.append_assoc, List.append_assoc]
        · cases h
          refine ⟨?_, hsign, ⟨number, rfl, hunsigned⟩, rfl⟩
          rw [chars_constant, List.append_assoc]
      · split at h
        · rename_i exponent last hpower
          rcases readPower_sound hpower with ⟨rfl, hexponent⟩
          cases h
          refine ⟨?_, hsign, rfl, hexponent⟩
          rw [chars_bare, List.append_assoc]
        · cases h

/-! ## Chains -/

/-- The spelling of terms one after the other. -/
def spelling (terms : List RawTerm) : List Char := terms.flatMap RawTerm.chars

theorem spelling_cons_append (t : RawTerm) (terms : List RawTerm) (rest : List Char) :
    spelling (t :: terms) ++ rest = t.chars ++ (spelling terms ++ rest) := by
  rw [spelling, List.flatMap_cons, List.append_assoc]
  rfl

/-- The terms of a grammatical text: at least one, all well formed, each but the
    first with a sign, and spelled one after the other as the text. -/
structure IsReading (terms : List RawTerm) (s : List Char) : Prop where
  nonempty : terms ≠ []
  wellFormed : ∀ t ∈ terms, t.WellFormed
  signed : ∀ t ∈ terms.tail, t.sign ≠ none
  spelled : spelling terms = s

/-- A signed term starts with its sign, so it may follow any other. -/
theorem termEnd_chars_append {t : RawTerm} (rest : List Char) (h : t.WellFormed)
    (hsigned : t.sign ≠ none) : TermEnd (t.chars ++ rest) := by
  intro c hc
  rcases h.sign with hnone | hplus | hminus
  · exact absurd hnone hsigned
  · rw [RawTerm.chars, hplus] at hc
    cases hc
    exact .inl rfl
  · rw [RawTerm.chars, hminus] at hc
    cases hc
    exact .inr rfl

theorem termEnd_spelling_append {terms : List RawTerm} {rest : List Char}
    (h : ∀ t ∈ terms, t.WellFormed) (hsigned : ∀ t ∈ terms, t.sign ≠ none) (hr : TermEnd rest) :
    TermEnd (spelling terms ++ rest) := by
  cases terms with
  | nil => exact hr
  | cons t terms =>
      rw [spelling_cons_append]
      exact termEnd_chars_append _ (h t List.mem_cons_self) (hsigned t List.mem_cons_self)

theorem readChain_of_none {s : List Char} (h : readTerm s = none) : readChain s = ([], s) := by
  rw [readChain]
  split
  · rfl
  · rename_i hsome
    rw [h] at hsome
    cases hsome

theorem readChain_of_unsigned {s rest : List Char} {t : RawTerm}
    (h : readTerm s = some (t, rest)) (hsign : t.sign.isNone) : readChain s = ([], s) := by
  rw [readChain]
  split
  · rfl
  · rename_i hsome
    rw [h] at hsome
    cases hsome
    rw [if_pos hsign]

theorem readChain_of_signed {s rest : List Char} {t : RawTerm}
    (h : readTerm s = some (t, rest)) (hsigned : t.sign ≠ none) :
    readChain s = (t :: (readChain rest).1, (readChain rest).2) := by
  rw [readChain]
  split
  · rename_i hnone
    rw [h] at hnone
    cases hnone
  · rename_i hsome
    rw [h] at hsome
    cases hsome
    rw [if_neg (by rwa [Option.isNone_iff_eq_none])]

/-- Signed terms in front of a rest are read, and reading goes on with the rest. -/
theorem readChain_append {terms : List RawTerm} {rest : List Char}
    (h : ∀ t ∈ terms, t.WellFormed) (hsigned : ∀ t ∈ terms, t.sign ≠ none) (hr : TermEnd rest) :
    readChain (spelling terms ++ rest)
      = (terms ++ (readChain rest).1, (readChain rest).2) := by
  induction terms with
  | nil => rfl
  | cons t terms ih =>
      have htail : ∀ u ∈ terms, u.WellFormed := fun u hu => h u (List.mem_cons_of_mem _ hu)
      have htailSigned : ∀ u ∈ terms, u.sign ≠ none :=
        fun u hu => hsigned u (List.mem_cons_of_mem _ hu)
      -- Behind the first term stands the sign of the next one, or the end.
      have hread : readTerm (spelling (t :: terms) ++ rest) = some (t, spelling terms ++ rest) := by
        rw [spelling_cons_append]
        exact readTerm_append (h t List.mem_cons_self)
          (termEnd_spelling_append htail htailSigned hr)
      rw [readChain_of_signed hread (hsigned t List.mem_cons_self), ih htail htailSigned]
      rfl

/-- What a chain has read is well formed, signed, and spelled as the text up to
    the rest. The induction is on the length of the text. -/
theorem readChain_sound {s left : List Char} {terms : List RawTerm}
    (h : readChain s = (terms, left)) :
    s = spelling terms ++ left ∧ ∀ t ∈ terms, t.WellFormed ∧ t.sign ≠ none := by
  induction s using readChain.induct generalizing terms left with
  | case1 s hnone =>
      rw [readChain_of_none hnone] at h
      cases h
      exact ⟨rfl, by intro t ht; cases ht⟩
  | case2 s t rest hread hsign =>
      rw [readChain_of_unsigned hread hsign] at h
      cases h
      exact ⟨rfl, by intro t ht; cases ht⟩
  | case3 s t rest hread hsign others last hrest ih =>
      -- The text is cut into the first term and what the chain reads of the rest.
      have hsigned : t.sign ≠ none := fun hnone => hsign (Option.isNone_iff_eq_none.2 hnone)
      rw [readChain_of_signed hread hsigned, hrest] at h
      cases h
      rcases readTerm_sound hread with ⟨rfl, hwell⟩
      rcases ih hrest with ⟨hspell, hall⟩
      refine ⟨?_, ?_⟩
      · rw [spelling_cons_append]
        exact congrArg (t.chars ++ ·) hspell
      · intro u hu
        rcases List.mem_cons.1 hu with rfl | hu
        · exact ⟨hwell, hsigned⟩
        · exact hall u hu

/-! ## Texts -/

/-- What is read of a text is a reading of the part in front of the rest. -/
theorem exists_isReading_of_readTerms {s left : List Char} {terms : List RawTerm}
    (h : readTerms s = some (terms, left)) :
    ∃ front, s = front ++ left ∧ IsReading terms front := by
  rw [readTerms, Option.map_eq_some_iff] at h
  rcases h with ⟨⟨first, rest⟩, hread, h⟩
  rcases readTerm_sound hread with ⟨rfl, hwell⟩
  cases hchain : readChain rest with
  | mk others last =>
      simp only [hchain] at h
      cases h
      rcases readChain_sound hchain with ⟨rfl, hall⟩
      refine ⟨spelling (first :: others), ?_, List.cons_ne_nil _ _, ?_, fun t ht => (hall t ht).2,
        rfl⟩
      · rw [spelling_cons_append]
      · intro t ht
        rcases List.mem_cons.1 ht with rfl | ht
        · exact hwell
        · exact (hall t ht).1

theorem isReading_of_readTerms {s : List Char} {terms : List RawTerm}
    (h : readTerms s = some (terms, [])) : IsReading terms s := by
  rcases exists_isReading_of_readTerms h with ⟨front, rfl, hreading⟩
  rwa [List.append_nil]

theorem readTerms_of_isReading {s : List Char} {terms : List RawTerm} (h : IsReading terms s) :
    readTerms s = some (terms, []) := by
  rcases h with ⟨hne, hwell, hsigned, rfl⟩
  rcases List.exists_cons_of_ne_nil hne with ⟨first, others, rfl⟩
  have hothers : ∀ t ∈ others, t.WellFormed := fun t ht => hwell t (List.mem_cons_of_mem _ ht)
  have hend : TermEnd (spelling others ++ []) :=
    termEnd_spelling_append hothers hsigned (by intro c hc; cases hc)
  -- With nothing left over, the chain ends for want of a term.
  have hchain : readChain (spelling others ++ []) = (others, []) := by
    rw [readChain_append hothers hsigned (by intro c hc; cases hc), readChain_of_none rfl,
      List.append_nil]
  rw [List.append_nil] at hend hchain
  have hread : readTerm (spelling (first :: others)) = some (first, spelling others) :=
    readTerm_append (hwell first List.mem_cons_self) hend
  rw [readTerms, hread, Option.map_some]
  simp only [hchain]

/-- No term can be read where there is nothing but, possibly, a sign. -/
theorem readTerms_eq_none_of_blank {s : List Char} (h : s = [] ∨ s = ['+'] ∨ s = ['-']) :
    readTerms s = none := by
  rcases h with rfl | rfl | rfl <;> rfl

theorem tokenize_of_isReading {s : List Char} {terms : List RawTerm} (h : IsReading terms s) :
    tokenize s = .ok terms := by
  have hread := readTerms_of_isReading h
  -- A reading has a term, so the text is none of those refused at once.
  have hblank : ¬(s = [] ∨ s = ['+'] ∨ s = ['-']) := by
    intro hblank
    rw [readTerms_eq_none_of_blank hblank] at hread
    cases hread
  rw [tokenize, if_neg hblank, hread]
  rfl

theorem isReading_of_tokenize {s : List Char} {terms : List RawTerm}
    (h : tokenize s = .ok terms) : IsReading terms s := by
  rw [tokenize] at h
  split at h
  · cases h
  · split at h
    · rename_i hread
      cases h
      exact isReading_of_readTerms hread
    · cases h
    · cases h

/-- A text is accepted with exactly those terms that spell it by the grammar, and
    no text is spelled in two ways. -/
theorem tokenize_eq_ok_iff_isReading (s : List Char) :
    (∀ terms, tokenize s = .ok terms ↔ IsReading terms s)
      ∧ ∀ first second, IsReading first s → IsReading second s → first = second := by
  refine ⟨fun terms => ⟨isReading_of_tokenize, tokenize_of_isReading⟩, ?_⟩
  intro first second hfirst hsecond
  -- Both readings are what the text is read as.
  have heq : (Except.ok first : Except FormatFault _) = .ok second :=
    (tokenize_of_isReading hfirst).symm.trans (tokenize_of_isReading hsecond)
  exact Except.ok.inj heq

end Expression

end PolyCalc
