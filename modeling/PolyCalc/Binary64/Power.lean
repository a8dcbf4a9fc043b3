import PolyCalc.Binary64.Rounding

/-!
# Powers of Doubles

The power of a double by a natural number, rounded once: the result is the
double nearest to the exact power. Exact powers are out of reach when the
exponent is large and the base close to one, so the power is enclosed first.
`powerBound` squares and multiplies with significands cut to a working length,
always downwards for a lower and always upwards for an upper bound. When both
bounds round to one double, so does the power between them. Longer working
lengths follow while they do not, and the exact power stands at the end of the
list, so the answer never rests on a guess.

An exponent of a polynomial is itself turned into a double before the power is
taken, which changes exponents above `2 ^ 53` to the nearest multiple of a
power of two.

Libraries leave the precision of powers open and may give a neighbour of the nearest
double, as common ones do for `10 ^ 23` and `3 ^ 34`, which lie at or near the middle
between two doubles. So the last bit of a power is a choice of this module, and
nothing is proved from it: all that theorems ask of a power is whether it is finite.

## Main definitions

* `Scaled.cut`: A number with its significand cut to a length.
* `powerBound`: A lower or an upper bound of a power.
* `powerBits`: The bits of the double nearest to a power.
* `roundExponent`: The natural number that stands for an exponent as a double.
* `power`: The power of a double.
-/

namespace PolyCalc

namespace Binary64

open Float.Model (UnpackedFloat)

/-- The side on which a bound lies. -/
inductive Side where
  | below
  | above
deriving DecidableEq, Repr

/-- The number with all but the leading `length` bits of its significand
    dropped, and, for a bound from above, one added to the last of them if any
    dropped bit was set. -/
def Scaled.cut (side : Side) (length : Nat) (x : Scaled) : Scaled :=
  let dropped := x.significand.log2 + 1 - length
  let kept := x.significand >>> dropped
  let carry := if side = .above ∧ kept <<< dropped ≠ x.significand then 1 else 0
  ⟨kept + carry, x.exponent + dropped⟩

/-- A bound of `x ^ n` on the given side, by squaring and multiplying along
    the bits of `n` from the highest one down. -/
def powerBound (side : Side) (length : Nat) (x : Scaled) (n : Nat) : Scaled :=
  (List.range (n.log2 + 1)).foldr
    (fun i acc =>
      let square := (acc.mul acc).cut side length
      if n.testBit i then (square.mul x).cut side length else square)
    ⟨1, 0⟩

/-- The bits of `x ^ n` when both bounds of the given working length round to
    the same double. -/
def enclosedPower? (x : Scaled) (n length : Nat) : Option Nat :=
  let low := (powerBound .below length x n).nearestBits
  let high := (powerBound .above length x n).nearestBits
  if low = high then some low else none

/-- The bits of the double nearest to `x ^ n`. -/
def powerBits (x : Scaled) (n : Nat) : Nat :=
  match [128, 256, 512].findSome? (enclosedPower? x n) with
  | some bits => bits
  | none => Scaled.nearestBits ⟨Nat.pow x.significand n, x.exponent * n⟩

/-- The exponent as a double: below `2 ^ 53` unchanged, from there on rounded
    to 53 significant bits. -/
def roundExponent (n : Nat) : Nat :=
  let dropped := n.log2 - 52
  divRound n (1 <<< dropped) <<< dropped

/-- `x ^ n` for an exponent that is a double. Every number to the power zero
    is one, also a number that is not a number; an odd power keeps the sign,
    also that of zero and of infinity, and an even one drops it. -/
def powerExact (x : Float) (n : Nat) : Float :=
  if n = 0 then 1
  else
    let signed (sign : UnpackedFloat.Sign) (bits : Nat) : Float :=
      match sign with
      | .negative => if n % 2 = 1 then -ofMagnitude bits else ofMagnitude bits
      | .positive => ofMagnitude bits
    match x.toModel.unpack with
    | .notANumber => x
    | .infinity sign => signed sign infinityBits
    | .zero sign => signed sign 0
    | .finite sign significand exponent _ =>
      signed sign (powerBits ⟨significand, exponent⟩ n)

/-- `x` to the power of the double nearest to `n`. -/
def power (x : Float) (n : Nat) : Float := powerExact x (roundExponent n)

end Binary64

end PolyCalc
