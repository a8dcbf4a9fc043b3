import PolyCalc.Coefficient

/-!
# Coefficients up to the Sign of Zero

There is more than one zero among the doubles, and which one comes out of a sum depends on
the order of the operands and on what was added before. None of this can be seen in a
result of arithmetic, because results are pruned: of a coefficient only that remains which
`unlessZero` tells.

Two coefficients of which the same remains are equal or zeros both. A sum of coefficients
respects this, as long as its zeros are neutral up to their sign, and then it can do
without the zeros among its summands altogether. `LawfulSums` collects the few laws that
arguments about sums and differences need. There is no law for the order of three summands
among them, and none that says when a sum rounds or overflows.

## Main definitions

* `unlessZero`: What remains of a coefficient.
* `LawfulSums`: Sums and negatives that obey laws up to the sign of zero.

## Theorems

* `unlessZero_eq_iff`: When the same remains of two coefficients.
* `unlessZero_neg`, `unlessZero_add`: Negatives and sums respect what remains.
* `unlessZero_foldl_add`: So do sums of many, and zeros can be left out of them.
-/

namespace PolyCalc

namespace Coefficient

variable {K : Type} [Coefficient K]

/-- What remains of a coefficient: the coefficient itself, unless it is zero. -/
def unlessZero (c : K) : Option K := if isZero c then none else some c

theorem unlessZero_of_isZero {c : K} (h : isZero c = true) : unlessZero c = none := if_pos h

theorem unlessZero_of_not_isZero {c : K} (h : isZero c = false) : unlessZero c = some c :=
  if_neg (by rw [h]; exact Bool.false_ne_true)

theorem unlessZero_eq_none_iff {c : K} : unlessZero c = none ↔ isZero c = true := by
  cases h : isZero c with
  | false => simp [unlessZero_of_not_isZero h]
  | true => simp [unlessZero_of_isZero h]

theorem unlessZero_eq_some_iff {c d : K} : unlessZero c = some d ↔ isZero c = false ∧ c = d := by
  cases h : isZero c with
  | false => simp [unlessZero_of_not_isZero h]
  | true => simp [unlessZero_of_isZero h]

/-- The same remains of coefficients that are equal or zeros both. -/
theorem unlessZero_eq_iff {a b : K} :
    unlessZero a = unlessZero b ↔ a = b ∨ isZero a = true ∧ isZero b = true := by
  cases ha : isZero a with
  | false =>
      rw [unlessZero_of_not_isZero ha, eq_comm, unlessZero_eq_some_iff]
      constructor
      · rintro ⟨-, h⟩
        exact .inl h.symm
      · rintro (rfl | ⟨h, -⟩)
        · exact ⟨ha, rfl⟩
        · cases h
  | true =>
      rw [unlessZero_of_isZero ha, eq_comm, unlessZero_eq_none_iff]
      constructor
      · intro hb
        exact .inr ⟨rfl, hb⟩
      · rintro (rfl | ⟨-, hb⟩)
        · exact ha
        · exact hb

/-- Sums and negatives that obey a few laws, up to the sign of zero. -/
class LawfulSums (K : Type) [Coefficient K] : Prop where
  /-- Absent coefficients are zero. -/
  isZero_zero : isZero (zero : K) = true
  /-- The negative of a zero is a zero, and no other negative is. -/
  isZero_neg : ∀ a : K, isZero (-a) = isZero a
  neg_neg : ∀ a : K, - -a = a
  add_comm : ∀ a b : K, a + b = b + a
  /-- All zeros are neutral. -/
  zero_add : ∀ z a : K, isZero z = true → unlessZero (z + a) = unlessZero a
  neg_add : ∀ a b : K, unlessZero (-a + -b) = unlessZero (-(a + b))

section Laws

variable [LawfulSums K]

theorem unlessZero_neg (a : K) : unlessZero (-a) = (unlessZero a).map fun c => -c := by
  cases h : isZero a with
  | false =>
      rw [unlessZero_of_not_isZero h, Option.map_some,
        unlessZero_of_not_isZero ((LawfulSums.isZero_neg a).trans h)]
  | true =>
      rw [unlessZero_of_isZero h, Option.map_none,
        unlessZero_of_isZero ((LawfulSums.isZero_neg a).trans h)]

/-- A summand may be replaced by one of which the same remains. -/
theorem unlessZero_add_right {a b b' : K} (h : unlessZero b = unlessZero b') :
    unlessZero (a + b) = unlessZero (a + b') := by
  rcases unlessZero_eq_iff.1 h with rfl | ⟨hb, hb'⟩
  · rfl
  · rw [LawfulSums.add_comm a b, LawfulSums.zero_add b a hb, LawfulSums.add_comm a b',
      LawfulSums.zero_add b' a hb']

theorem unlessZero_add {a a' b b' : K} (ha : unlessZero a = unlessZero a')
    (hb : unlessZero b = unlessZero b') : unlessZero (a + b) = unlessZero (a' + b') := by
  rw [unlessZero_add_right hb, LawfulSums.add_comm a b', LawfulSums.add_comm a' b']
  exact unlessZero_add_right ha

theorem unlessZero_add_zero {a z : K} (hz : isZero z = true) :
    unlessZero (a + z) = unlessZero a := by
  rw [LawfulSums.add_comm, LawfulSums.zero_add z a hz]

/-- Summands that are zero can be left out, wherever they stand. -/
theorem unlessZero_foldl_add {α : Type} {f : α → K} {keep : α → Bool} {xs : List α}
    {sum sum' : K} (hsum : unlessZero sum = unlessZero sum')
    (hleft : ∀ x ∈ xs, keep x = false → isZero (f x) = true) :
    unlessZero (((xs.filter keep).map f).foldl (· + ·) sum)
      = unlessZero ((xs.map f).foldl (· + ·) sum') := by
  induction xs generalizing sum sum' with
  | nil => exact hsum
  | cons x xs ih =>
      have hrest : ∀ y ∈ xs, keep y = false → isZero (f y) = true :=
        fun y hy => hleft y (List.mem_cons_of_mem x hy)
      cases hkeep : keep x with
      | true =>
          rw [List.filter_cons_of_pos hkeep]
          exact ih (unlessZero_add hsum rfl) hrest
      | false =>
          rw [List.filter_cons_of_neg (by rw [hkeep]; exact Bool.false_ne_true)]
          have hzero := hleft x List.mem_cons_self hkeep
          exact ih (hsum.trans (unlessZero_add_zero hzero).symm) hrest

end Laws

end Coefficient

end PolyCalc
