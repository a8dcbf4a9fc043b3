import PolyCalc.Binary64.Rounding

/-!
# Writing Doubles

A double is written in plain decimal notation, with the fewest significant
digits that read back to it. Of the decimals with that many digits the one
nearest to the double is taken, and of two equally near ones the larger. There
is no power of ten in the text and no fraction where the number is whole.

A decimal grid with `n` significant digits has two neighbours of the double,
one on each side. If any point of the grid reads back, one of these two does,
so `shortest` tries the two neighbours on grids of growing fineness. Reading
back is tested with the very rounding that the reader uses. Seventeen digits
are known to suffice; the exact decimal expansion stands behind them so that
the function is total without appeal to that fact.

## Main definitions

* `decimalExponent`: The number of digits before the decimal point.
* `shortest`: The shortest decimal that reads back.
* `Decimal.chars`: Plain decimal notation.
* `decimalText`: The text of a double.
-/

namespace PolyCalc

namespace Binary64

open Float.Model (UnpackedFloat)

/-- The least `k` with `x < 10 ^ k`. The length of `x` in bits leaves three
    candidates. -/
def decimalExponent (x : Scaled) : Int :=
  let least := exponentOf x.num x.den * 30103 / 100000
  let exceeded (k : Int) : Bool := x.num * Nat.pow 10 (-k).toNat < x.den * Nat.pow 10 k.toNat
  if exceeded least then least
  else if exceeded (least + 1) then least + 1
  else least + 2

/-- The decimal `digits * 10 ^ (top - n)`, where `digits` may have reached
    `10 ^ n` and is then written as a one. -/
def onGrid (top : Int) (n digits : Nat) : Decimal :=
  if digits = Nat.pow 10 n then ⟨1, top⟩ else ⟨digits, top - n⟩

/-- The two neighbours of `x` among the decimals with `n` significant digits,
    the nearer one first. At the same distance the larger one is first. -/
def neighbours (x : Scaled) (top : Int) (n : Nat) : List Decimal :=
  let grid := top - n
  let num := x.num * Nat.pow 10 (-grid).toNat
  let den := x.den * Nat.pow 10 grid.toNat
  let below := onGrid top n (num / den)
  let above := onGrid top n (num / den + 1)
  if 2 * (num % den) < den then [below, above] else [above, below]

/-- The exact decimal expansion of `x`: a negative power of two is the power
    of five of the same size, shifted behind the decimal point. -/
def exactDecimal (x : Scaled) : Decimal :=
  ⟨x.num * Nat.pow 5 (-x.exponent).toNat, min x.exponent 0⟩

/-- The shortest decimal that rounds to the same double as `x`. -/
def shortest (x : Scaled) : Decimal :=
  let bits := x.nearestBits
  let top := decimalExponent x
  match (List.range' 1 17).findSome? fun n =>
      (neighbours x top n).find? fun d => d.nearestBits = bits with
  | some d => d
  | none => exactDecimal x

/-- Plain decimal notation: the whole part, and behind a point as many digits
    as the decimal has places. -/
def Decimal.chars (d : Decimal) : List Char :=
  if 0 ≤ d.exponent then Nat.toDigits 10 d.num
  else
    let places := (-d.exponent).toNat
    Nat.toDigits 10 (d.digits / d.den) ++
      '.' :: (Nat.toDigits 10 (d.digits % d.den)).leftpad places '0'

/-- The minus sign of a negative number. -/
def signChars : UnpackedFloat.Sign → List Char
  | .negative => ['-']
  | .positive => []

/-- The characters of a double. Zero keeps its sign, the absence of a number
    has none. -/
def decimalChars (x : Float) : List Char :=
  match x.toModel.unpack with
  | .notANumber => "NaN".toList
  | .infinity sign => signChars sign ++ "inf".toList
  | .zero sign => signChars sign ++ ['0']
  | .finite sign significand exponent _ =>
    signChars sign ++ (shortest ⟨significand, exponent⟩).chars

/-- The text of a double. -/
def decimalText (x : Float) : String := String.ofList (decimalChars x)

end Binary64

end PolyCalc
