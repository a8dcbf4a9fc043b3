import PolyCalc.Expression.RawTerm

/-!
# Reading Terms

The language of polynomial texts without blanks: a chain of terms, each but the
first behind a sign. It is read from left to right, and each part takes as much
as it can. A number takes its digits, a point and the digits behind it; an `x`
takes a caret only together with digits; a term takes a following `x` whenever
there is one. What remains when no further term can be read is left over, and a
text is accepted when nothing is.

Each reader returns what it read and what is left, and `readTerm` also that less
is left than was given, which is what ends the chain.

## Main definitions

* `readUnsigned`: A number at the start of a text.
* `readPower`: An `x` with its exponent.
* `readTerm`: A term.
* `readChain`: As many signed terms as there are.
* `tokenize`: The terms of a text.
-/

namespace PolyCalc

namespace Expression

/-- The digits at the start of a text, and the rest. -/
def readDigits (s : List Char) : List Char × List Char :=
  (s.takeWhile Char.isDigit, s.dropWhile Char.isDigit)

/-- A number without a sign at the start of a text, and the rest. -/
def readUnsigned (s : List Char) : Option (List Char × List Char) :=
  match readDigits s with
  | ([], '.' :: rest) =>
    match readDigits rest with
    | ([], _) => none
    | (fraction, rest) => some ('.' :: fraction, rest)
  | ([], _) => none
  | (whole, '.' :: rest) =>
    let (fraction, rest) := readDigits rest
    some (whole ++ '.' :: fraction, rest)
  | (whole, rest) => some (whole, rest)

/-- An `x` at the start of a text with the digits of its exponent, and the rest.
    A caret without a digit behind it is not taken. -/
def readPower : List Char → Option (Option (List Char) × List Char)
  | 'x' :: '^' :: rest =>
    match readDigits rest with
    | ([], _) => some (none, '^' :: rest)
    | (digits, rest) => some (some digits, rest)
  | 'x' :: rest => some (none, rest)
  | _ => none

/-- A sign at the start of a text, and the rest. -/
def readSign : List Char → Option Char × List Char
  | '+' :: rest => (some '+', rest)
  | '-' :: rest => (some '-', rest)
  | s => (none, s)

/-- A term at the start of a text, and the rest. A number is free-standing only
    when no `x` follows it. -/
def readTerm (s : List Char) : Option (RawTerm × List Char) :=
  let (sign, s) := readSign s
  match readUnsigned s with
  | some (number, rest) =>
    match readPower rest with
    | some (exponent, rest) => some (⟨sign, .scaled, some number, exponent⟩, rest)
    | none => some (⟨sign, .constant, some number, none⟩, rest)
  | none =>
    match readPower s with
    | some (exponent, rest) => some (⟨sign, .bare, none, exponent⟩, rest)
    | none => none

theorem length_readDigits (s : List Char) :
    (readDigits s).1.length + (readDigits s).2.length = s.length := by
  rw [readDigits, ← List.length_append, List.takeWhile_append_dropWhile]

theorem length_lt_of_readUnsigned {s number rest : List Char}
    (h : readUnsigned s = some (number, rest)) : rest.length < s.length := by
  have hlen := length_readDigits s
  unfold readUnsigned at h
  split at h
  · rename_i after hs
    rw [hs] at hlen
    have hafter := length_readDigits after
    split at h
    · cases h
    · rename_i hd
      cases h
      rw [hd] at hafter
      simp only [List.length_nil, List.length_cons] at hlen hafter
      omega
  · cases h
  · rename_i whole after _ hs
    rw [hs] at hlen
    have hafter := length_readDigits after
    cases h
    simp only [readDigits, List.length_cons] at hlen hafter ⊢
    omega
  · rename_i hs
    rw [hs] at hlen
    cases h
    have hpos : 0 < number.length := List.length_pos_iff.2 (by rintro rfl; simp_all)
    simp only at hlen
    omega

theorem length_lt_of_readPower {s rest : List Char} {exponent : Option (List Char)}
    (h : readPower s = some (exponent, rest)) : rest.length < s.length := by
  unfold readPower at h
  split at h
  · rename_i after
    have hafter := length_readDigits after
    split at h
    · cases h
      simp only [List.length_cons]
      omega
    · rename_i hd
      cases h
      rw [hd] at hafter
      simp only [List.length_cons] at hafter ⊢
      omega
  · cases h
    exact Nat.lt_succ_self _
  · cases h

theorem length_readSign_le (s : List Char) : (readSign s).2.length ≤ s.length := by
  unfold readSign
  split <;> simp

/-- A term takes at least one character. -/
theorem length_lt_of_readTerm {s rest : List Char} {t : RawTerm}
    (h : readTerm s = some (t, rest)) : rest.length < s.length := by
  have hsign := length_readSign_le s
  unfold readTerm at h
  simp only at h
  split at h
  · rename_i number after hnumber
    have hafter := length_lt_of_readUnsigned hnumber
    split at h
    · rename_i exponent last hpower
      have := length_lt_of_readPower hpower
      cases h
      omega
    · cases h
      omega
  · split at h
    · rename_i exponent last hpower
      have := length_lt_of_readPower hpower
      cases h
      omega
    · cases h

/-- As many terms as can be read one after the other, each behind a sign, and
    the rest. -/
def readChain (s : List Char) : List RawTerm × List Char :=
  match _h : readTerm s with
  | none => ([], s)
  | some (t, rest) =>
    if t.sign.isNone then ([], s)
    else
      let (terms, left) := readChain rest
      (t :: terms, left)
termination_by s.length
decreasing_by exact length_lt_of_readTerm _h

/-- A term and as many signed terms behind it as can be read, and the rest. -/
def readTerms (s : List Char) : Option (List RawTerm × List Char) :=
  (readTerm s).map fun (first, rest) =>
    let (terms, left) := readChain rest
    (first :: terms, left)

/-- The terms of a text without blanks. A text that holds nothing but, possibly,
    a sign has no term; any other text must be used up. -/
def tokenize (s : List Char) : Except FormatFault (List RawTerm) :=
  if s = [] ∨ s = ['+'] ∨ s = ['-'] then throw .noTerms
  else
    match readTerms s with
    | some (terms, []) => pure terms
    | some (_, left) => throw (.invalidCharacters (String.ofList left))
    | none => throw (.invalidCharacters (String.ofList s))

end Expression

end PolyCalc
