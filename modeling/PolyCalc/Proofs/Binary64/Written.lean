import Mathlib.Data.List.TakeWhile
import PolyCalc.Expression.RawTerm
import PolyCalc.Proofs.Binary64.Doubles
import PolyCalc.Proofs.Binary64.Nearest

/-!
# Reading Back What Was Written

A decimal in plain notation is a number of the grammar, and reading it gives the
decimal again: digits are read back as the number they were written from, and a
fraction is padded to as many places as the decimal has. A decimal without places
loses its power of ten, which is written out in zeros, but not its value.

The shortest decimal of a double rounds to the double, so a finite double that
was written is read back as the same double, with its sign turned at the end if
it is negative. The texts that are no numbers have letters in them.

## Theorems

* `isUnsignedNumber_chars`: Plain notation is a number of the grammar.
* `exists_readDecimal`: Every number of the grammar is a decimal.
* `nearestBits_of_readDecimal_chars`: The decimal is read back.
* `HasParts.decimalChars_eq`: A double is written as its sign and its magnitude.
* `HasParts.readNumber_decimalChars`: The magnitude of a double is read back.
* `letter_mem_decimalChars`: The text of any other double.
-/

namespace PolyCalc

namespace Binary64

open Float.Model (UnpackedFloat)
open Float.Model.UnpackedFloat

/-! ## Digits -/

theorem isDigits_toDigits (n : Nat) : IsDigits (Nat.toDigits 10 n) :=
  ⟨Nat.toDigits_ne_nil, fun _ hc => Nat.isDigit_of_mem_toDigits (by decide) (by decide) hc⟩

theorem digitsValue_toDigits (n : Nat) : digitsValue (Nat.toDigits 10 n) = n :=
  Nat.ofDigitChars_ten_toDigits

theorem isDigits_append {s t : List Char} (hs : IsDigits s) (ht : ∀ c ∈ t, c.isDigit = true) :
    IsDigits (s ++ t) := by
  refine ⟨List.append_ne_nil_of_left_ne_nil hs.1 t, fun c hc => ?_⟩
  rcases List.mem_append.1 hc with hc | hc
  · exact hs.2 c hc
  · exact ht c hc

/-- A number below `10 ^ places`, written with that many digits. -/
def paddedDigits (places n : Nat) : List Char := (Nat.toDigits 10 n).leftpad places '0'

theorem isDigits_paddedDigits (places n : Nat) : IsDigits (paddedDigits places n) := by
  rw [paddedDigits, List.leftpad]
  refine ⟨List.append_ne_nil_of_right_ne_nil _ Nat.toDigits_ne_nil, fun c hc => ?_⟩
  rcases List.mem_append.1 hc with hc | hc
  · rw [List.eq_of_mem_replicate hc]
    rfl
  · exact (isDigits_toDigits n).2 c hc

theorem length_paddedDigits {places n : Nat} (hplaces : 0 < places) (hn : n < 10 ^ places) :
    (paddedDigits places n).length = places := by
  have hlen := (Nat.length_toDigits_le_iff (by decide) hplaces).2 hn
  rw [paddedDigits, List.length_leftpad]
  exact Nat.max_eq_left hlen

/-- Digits with padded digits behind them are read as one number. -/
theorem digitsValue_append_paddedDigits {places : Nat} (hplaces : 0 < places) (m : Nat) {n : Nat}
    (hn : n < 10 ^ places) :
    digitsValue (Nat.toDigits 10 m ++ paddedDigits places n) = 10 ^ places * m + n := by
  have hlen := length_paddedDigits hplaces hn
  -- Zeros in front of a number do not change its value.
  have hvalue : Nat.ofDigitChars 10 (paddedDigits places n) 0 = n := by
    rw [paddedDigits, List.leftpad, Nat.ofDigitChars_append, Nat.ofDigitChars_replicate_zero,
      Nat.mul_zero, Nat.ofDigitChars_ten_toDigits]
  rw [digitsValue, Nat.ofDigitChars_append, Nat.ofDigitChars_ten_toDigits,
    Nat.ofDigitChars_eq_ofDigitChars_zero, hlen, hvalue]

/-! ## Plain notation -/

theorem Decimal.chars_of_nonneg {d : Decimal} (h : 0 ≤ d.exponent) :
    d.chars = Nat.toDigits 10 d.num := if_pos h

theorem Decimal.chars_of_neg {d : Decimal} (h : d.exponent < 0) :
    d.chars = Nat.toDigits 10 (d.digits / d.den) ++
      '.' :: paddedDigits (-d.exponent).toNat (d.digits % d.den) := if_neg (by omega)

/-- Plain notation is a number of the grammar. -/
theorem isUnsignedNumber_chars (d : Decimal) : IsUnsignedNumber d.chars := by
  by_cases h : 0 ≤ d.exponent
  · rw [Decimal.chars_of_nonneg h]
    exact .inl (isDigits_toDigits _)
  · rw [Decimal.chars_of_neg (by omega)]
    exact .inr (.inl ⟨_, _, isDigits_toDigits _, .inr (isDigits_paddedDigits _ _), rfl⟩)

/-- Plain notation starts with a digit. -/
theorem exists_digit_cons_chars (d : Decimal) :
    ∃ c tail, d.chars = c :: tail ∧ c.isDigit = true := by
  have hfirst (n : Nat) (rest : List Char) :
      ∃ c tail, Nat.toDigits 10 n ++ rest = c :: tail ∧ c.isDigit = true := by
    rcases List.exists_cons_of_ne_nil (isDigits_toDigits n).1 with ⟨c, tail, heq⟩
    refine ⟨c, tail ++ rest, ?_, ?_⟩
    · rw [heq, List.cons_append]
    · exact (isDigits_toDigits n).2 c (heq ▸ List.mem_cons_self)
  by_cases h : 0 ≤ d.exponent
  · rw [Decimal.chars_of_nonneg h, ← List.append_nil (Nat.toDigits 10 d.num)]
    exact hfirst _ _
  · rw [Decimal.chars_of_neg (by omega)]
    exact hfirst _ _

/-! ## Reading a decimal -/

theorem readDecimal_digits {digits : List Char} (h : IsDigits digits) :
    readDecimal digits = some ⟨digitsValue digits, 0⟩ := by
  have htake : digits.takeWhile Char.isDigit = digits := List.takeWhile_eq_self_iff.2 h.2
  have hdrop : digits.dropWhile Char.isDigit = [] := List.dropWhile_eq_nil_iff.2 h.2
  unfold readDecimal
  simp only [htake, hdrop, List.append_nil]
  rw [if_neg h.1]
  rfl

/-- Digits with a point in front of, behind or among them are read as the digits, with
    as many places as stand behind the point. -/
theorem readDecimal_point {whole fraction : List Char} (hwhole : ∀ c ∈ whole, c.isDigit = true)
    (hfraction : ∀ c ∈ fraction, c.isDigit = true) (hne : whole ++ fraction ≠ []) :
    readDecimal (whole ++ '.' :: fraction)
      = some ⟨digitsValue (whole ++ fraction), -fraction.length⟩ := by
  have htake : (whole ++ '.' :: fraction).takeWhile Char.isDigit = whole := by
    rw [List.takeWhile_append_of_pos hwhole]
    exact List.append_nil whole
  have hdrop : (whole ++ '.' :: fraction).dropWhile Char.isDigit = '.' :: fraction := by
    rw [List.dropWhile_append_of_pos hwhole]
    rfl
  have htakeFraction : fraction.takeWhile Char.isDigit = fraction :=
    List.takeWhile_eq_self_iff.2 hfraction
  have hdropFraction : fraction.dropWhile Char.isDigit = [] :=
    List.dropWhile_eq_nil_iff.2 hfraction
  have hscale : readScale [] = some 0 := rfl
  unfold readDecimal
  simp only [htake, hdrop, htakeFraction, hdropFraction, hscale, Option.map_some]
  rw [if_neg hne, Int.zero_sub]

/-- Every number of the grammar is a decimal. -/
theorem exists_readDecimal {number : List Char} (h : IsUnsignedNumber number) :
    ∃ d, readDecimal number = some d := by
  rcases h with h | ⟨whole, fraction, ⟨hne, hwhole⟩, hf, rfl⟩ | ⟨fraction, ⟨hne, hf⟩, rfl⟩
  · exact ⟨_, readDecimal_digits h⟩
  · have hfraction : ∀ c ∈ fraction, c.isDigit = true := by
      rcases hf with rfl | hf
      · exact List.forall_mem_nil _
      · exact hf.2
    exact ⟨_, readDecimal_point hwhole hfraction (List.append_ne_nil_of_left_ne_nil hne _)⟩
  · exact ⟨_, readDecimal_point (List.forall_mem_nil _) hf hne⟩

/-- A decimal with places is read back as it is. -/
theorem readDecimal_chars_of_neg {d : Decimal} (h : d.exponent < 0) :
    readDecimal d.chars = some d := by
  have hplaces : 0 < (-d.exponent).toNat := by omega
  have hden : d.den = 10 ^ (-d.exponent).toNat := rfl
  have hmod : d.digits % d.den < 10 ^ (-d.exponent).toNat := Nat.mod_lt _ d.den_pos
  -- The fraction has as many digits as the decimal has places.
  have hexponent : -((-d.exponent).toNat : Int) = d.exponent := by omega
  have hfraction := (isDigits_paddedDigits (-d.exponent).toNat (d.digits % d.den)).2
  have hne := (isDigits_append (isDigits_toDigits (d.digits / d.den)) hfraction).1
  rw [Decimal.chars_of_neg h, readDecimal_point (isDigits_toDigits _).2 hfraction hne,
    digitsValue_append_paddedDigits hplaces _ hmod, length_paddedDigits hplaces hmod, hexponent,
    ← hden, Nat.div_add_mod]

/-- A decimal without places is read back with its zeros written out. -/
theorem readDecimal_chars_of_nonneg {d : Decimal} (h : 0 ≤ d.exponent) :
    readDecimal d.chars = some ⟨d.num, 0⟩ := by
  rw [Decimal.chars_of_nonneg h, readDecimal_digits (isDigits_toDigits _), digitsValue_toDigits]

/-- What is read back from a decimal that rounds to a finite number rounds to the
    same number. -/
theorem nearestBits_of_readDecimal_chars {d : Decimal} {x : Scaled} (hx : x.IsCanonical)
    (h : d.nearestBits = x.bits) :
    ∃ d', readDecimal d.chars = some d' ∧ d'.nearestBits = x.bits := by
  by_cases hexponent : 0 ≤ d.exponent
  · refine ⟨⟨d.num, 0⟩, readDecimal_chars_of_nonneg hexponent, ?_⟩
    have hbound := hx.bits_lt
    have hpos := hx.bits_pos
    have hden : d.den = 1 := by
      have hplaces : (-d.exponent).toNat = 0 := by omega
      rw [Decimal.den, hplaces, Nat.pow_eq, Nat.pow_zero]
    -- The bounds of the reader are passed, or the result would not be finite.
    have hquotient : nearestBits d.num 1 = x.bits := by
      rw [Decimal.nearestBits, hden] at h
      split at h
      · omega
      · split at h
        · omega
        · split at h
          · omega
          · exact h
    have hnum : d.num ≠ 0 := by
      intro hzero
      rw [hzero] at hquotient
      exact Nat.ne_of_gt hpos hquotient.symm
    have hread : Decimal.num ⟨d.num, 0⟩ = d.num := Nat.mul_one _
    have hreadDen : Decimal.den ⟨d.num, 0⟩ = 1 := rfl
    unfold Decimal.nearestBits
    simp only
    rw [if_neg hnum, if_neg (by omega), if_neg (by omega), hread, hreadDen]
    exact hquotient
  · exact ⟨d, readDecimal_chars_of_neg (by omega), h⟩

/-! ## Reading a number -/

theorem toLower_of_isDigit {c : Char} (h : c.isDigit = true) : c.toLower = c := by
  have hupper : ¬(c.val ≥ 'A'.val ∧ c.val ≤ 'Z'.val) := by
    simp only [Char.isDigit, Bool.and_eq_true, decide_eq_true_eq] at h
    rintro ⟨hlow, -⟩
    exact absurd (UInt32.le_trans hlow h.2) (by decide)
  exact dif_neg hupper

/-- A text that starts with no letter of the words is none of them. -/
theorem readMagnitude_cons {c : Char} {tail : List Char} (hi : c.toLower ≠ 'i')
    (hn : c.toLower ≠ 'n') :
    readMagnitude (c :: tail) = (readDecimal (c :: tail)).map Decimal.nearest := by
  have hword {d : Char} {word : List Char} (hd : c.toLower ≠ d) :
      (c :: tail).map Char.toLower ≠ d :: word :=
    fun heq => hd (List.cons.inj heq).1
  unfold readMagnitude
  simp only
  rw [if_neg, if_neg]
  · exact hword hn
  · rintro (heq | heq)
    · exact hword hi heq
    · exact hword hi heq

/-- A text that starts with a digit is none of the words. -/
theorem readMagnitude_of_digit {c : Char} {tail : List Char} (h : c.isDigit = true) :
    readMagnitude (c :: tail) = (readDecimal (c :: tail)).map Decimal.nearest := by
  -- A digit has no case, and each word starts with a letter.
  have hletter {d : Char} (hd : d.isDigit = false) : c.toLower ≠ d := by
    intro heq
    rw [toLower_of_isDigit h] at heq
    rw [heq, hd] at h
    cases h
  exact readMagnitude_cons (hletter (by decide)) (hletter (by decide))

theorem readNumber_of_digit {c : Char} {tail : List Char} (h : c.isDigit = true) :
    readNumber (c :: tail) = readMagnitude (c :: tail) := by
  unfold readNumber
  split
  · rename_i heq
    cases heq
    cases h
  · rename_i heq
    cases heq
    cases h
  · rfl

/-- The magnitude of a double is read back from its text. -/
theorem readNumber_chars_shortest {x : Scaled} (hx : x.IsCanonical) :
    readNumber (shortest x).chars = some (ofMagnitude x.bits) := by
  rcases exists_digit_cons_chars (shortest x) with ⟨c, tail, heq, hc⟩
  -- What is read rounds as the shortest decimal does, which is to the number.
  rcases nearestBits_of_readDecimal_chars hx (nearestBits_shortest hx) with ⟨d, hd, hbits⟩
  rw [heq] at hd ⊢
  rw [readNumber_of_digit hc, readMagnitude_of_digit hc, hd, Option.map_some, Decimal.nearest,
    hbits]

/-! ## The text of a double -/

theorem decimalChars_of_unpack {x : Float} {sign : Sign} {m : Nat} {e : Int} {hpos : 0 < m}
    (h : x.toModel.unpack = .finite sign m e hpos) :
    decimalChars x = signChars sign ++ (shortest ⟨m, e⟩).chars := by
  rw [decimalChars, h]

theorem decimalChars_abs {x : Float} {sign : Sign} {m : Nat} {e : Int} {hpos : 0 < m}
    (h : x.toModel.unpack = .finite sign m e hpos) :
    decimalChars x.abs = (shortest ⟨m, e⟩).chars := by
  rw [decimalChars_of_unpack (unpack_abs h), signChars, List.nil_append]

/-- A negative double is written with a minus before its magnitude. -/
theorem HasParts.decimalChars_eq {x : Float} (h : HasParts x) :
    decimalChars x = (if 0 < x then [] else ['-']) ++ decimalChars x.abs := by
  rcases h with ⟨sign, m, e, hpos, h⟩
  rw [decimalChars_of_unpack h, decimalChars_abs h]
  cases sign with
  | negative =>
      have hlt : ¬0 < x := by
        intro hlt
        cases (zero_lt_iff h).1 hlt
      rw [if_neg hlt, signChars]
  | positive => rw [if_pos ((zero_lt_iff h).2 rfl), signChars]

theorem HasParts.isUnsignedNumber_decimalChars {x : Float} (h : HasParts x) :
    IsUnsignedNumber (decimalChars x.abs) := by
  rcases h with ⟨sign, m, e, hpos, h⟩
  rw [decimalChars_abs h]
  exact isUnsignedNumber_chars _

/-- The magnitude of a double is read back from its text. -/
theorem HasParts.readNumber_decimalChars {x : Float} (h : HasParts x) :
    readNumber (decimalChars x.abs) = some x.abs := by
  rcases h with ⟨sign, m, e, hpos, h⟩
  have hcanonical := isCanonical_of_unpack h
  -- The bits that the reader finds are those of the magnitude.
  have hmagnitude : ofMagnitude (Scaled.bits ⟨m, e⟩) = x.abs :=
    eq_of_unpack_eq ((unpack_ofMagnitude_bits hpos hcanonical).trans (unpack_abs h).symm)
  rw [decimalChars_abs h, readNumber_chars_shortest hcanonical, hmagnitude]

/-- The text of a double that is neither finite nor zero has a letter in it. -/
theorem letter_mem_decimalChars {x : Float} (h : x.isFinite = false) :
    'n' ∈ decimalChars x ∨ 'N' ∈ decimalChars x := by
  have hfinite : x.isFinite = x.toModel.unpack.isFinite := rfl
  rw [hfinite] at h
  rw [decimalChars]
  cases hparts : x.toModel.unpack with
  | notANumber => exact .inr (by decide)
  | infinity sign => exact .inl (List.mem_append_right _ (by decide))
  | zero sign =>
      rw [hparts] at h
      cases h
  | finite sign m e hpos =>
      rw [hparts] at h
      cases h

end Binary64

end PolyCalc
