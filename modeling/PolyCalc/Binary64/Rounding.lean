/-!
# Rounding to the Nearest Double

Every number that enters the calculator as text, and every power of a double,
is a rational number that has to be replaced by a double. The double taken is
the nearest one; of two equally near ones it is the one with the even
significand.

The work is done on the bits. The bits of a non-negative double, read as a
natural number, count the doubles below it: the fraction fills the low 52
places and the exponent field stands above them, so a significand that rounds
up to `2 ^ 53` carries into the exponent by plain addition, a subnormal number
needs no case of its own, and whatever lies beyond the largest finite double
is cut off at the bits of infinity.

## Main definitions

* `divRound`: A quotient rounded to the nearest natural number.
* `exponentOf`: The position of the leading bit of a quotient.
* `nearestBits`: The bits of the double nearest to a quotient.
* `nearest`: The double nearest to a quotient.
* `Scaled`: A number `significand * 2 ^ exponent`.
* `Decimal`: A number `digits * 10 ^ exponent`.
-/

namespace PolyCalc

namespace Binary64

/-- The bits of positive infinity. Read as a natural number, every smaller
    magnitude has smaller bits. -/
def infinityBits : Nat := 0x7FF0000000000000

/-- `num / den` rounded to the nearest natural number, a half to the even
    neighbour. -/
def divRound (num den : Nat) : Nat :=
  let q := num / den
  let r := num % den
  if 2 * r < den then q
  else if den < 2 * r then q + 1
  else q + q % 2

/-- The greatest `e` with `2 ^ e ≤ num / den`, for positive `num` and `den`.
    The lengths of the two numbers leave two candidates, and one comparison
    decides between them. -/
def exponentOf (num den : Nat) : Int :=
  let e : Int := (num.log2 : Int) - (den.log2 : Int)
  if den <<< e.toNat ≤ num <<< (-e).toNat then e else e - 1

/-- The bits of the double nearest to `num / den`. The last place of the
    result is worth `2 ^ ulp`, and no place is worth less than `2 ^ (-1074)`. -/
def nearestBits (num den : Nat) : Nat :=
  if num = 0 then 0
  else
    let ulp : Int := max (exponentOf num den - 52) (-1074)
    let significand := divRound (num <<< (-ulp).toNat) (den <<< ulp.toNat)
    min (((ulp + 1074).toNat <<< 52) + significand) infinityBits

/-- The non-negative double with the given bits. -/
def ofMagnitude (bits : Nat) : Float := Float.ofBits (UInt64.ofNat bits)

/-- The double nearest to `num / den`. -/
def nearest (num den : Nat) : Float := ofMagnitude (nearestBits num den)

/-- Positive infinity. -/
def infinity : Float := ofMagnitude infinityBits

/-- The number `significand * 2 ^ exponent`. -/
structure Scaled where
  significand : Nat
  exponent : Int
deriving DecidableEq, Repr

namespace Scaled

/-- The product of two numbers. -/
def mul (x y : Scaled) : Scaled :=
  ⟨x.significand * y.significand, x.exponent + y.exponent⟩

/-- The numerator of the number as a quotient of natural numbers. -/
def num (x : Scaled) : Nat := x.significand <<< x.exponent.toNat

/-- The denominator of the number as a quotient of natural numbers. -/
def den (x : Scaled) : Nat := 1 <<< (-x.exponent).toNat

/-- The bits of the nearest double. A number from `2 ^ 1025` on rounds to
    infinity and one below `2 ^ (-1100)` to zero, so that the quotient is only
    formed for exponents of ordinary size. -/
def nearestBits (x : Scaled) : Nat :=
  let top : Int := x.significand.log2 + x.exponent
  if x.significand = 0 then 0
  else if 1025 ≤ top then infinityBits
  else if top < -1100 then 0
  else Binary64.nearestBits x.num x.den

end Scaled

/-- The number `digits * 10 ^ exponent`. -/
structure Decimal where
  digits : Nat
  exponent : Int
deriving DecidableEq, Repr

namespace Decimal

/-- The numerator of the number as a quotient of natural numbers. -/
def num (d : Decimal) : Nat := d.digits * Nat.pow 10 d.exponent.toNat

/-- The denominator of the number as a quotient of natural numbers. -/
def den (d : Decimal) : Nat := Nat.pow 10 (-d.exponent).toNat

/-- The bits of the nearest double. A number from `10 ^ 400` on rounds to
    infinity and one below `10 ^ (-400)` to zero, so that the quotient is only
    formed for exponents of ordinary size. -/
def nearestBits (d : Decimal) : Nat :=
  if d.digits = 0 then 0
  else if 400 ≤ d.exponent then infinityBits
  else if (d.digits.log2 : Int) + d.exponent < -400 then 0
  else Binary64.nearestBits d.num d.den

/-- The nearest double. -/
def nearest (d : Decimal) : Float := ofMagnitude d.nearestBits

end Decimal

end Binary64

end PolyCalc
