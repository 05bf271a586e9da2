import ArrayGraph.Number.Binary64

/-!
# The shortest decimal of a binary number

The reals that round to a finite float form an interval around it: halfway to the float below,
halfway to the float above, ends included exactly when the significand is even. This file finds
the decimal with the fewest digits in that interval, and among those the one nearest to the
float. All comparisons are between natural numbers.
-/

namespace ArrayGraph

/-- The number `digits * 10 ^ exponent`. -/
structure Decimal where
  digits : Nat
  exponent : Int
deriving DecidableEq, Repr

namespace Decimal

/-- Compares `left * 10 ^ i` with `right * 2 ^ j`. -/
def compareScaled (left : Nat) (i : Int) (right : Nat) (j : Int) : Ordering :=
  compare ((left * Nat.pow 10 i.toNat) <<< (-j).toNat)
    ((right * Nat.pow 10 (-i).toNat) <<< j.toNat)

/-- Whether the decimal rounds to the float `significand * 2 ^ exponent`. Below a power of two the
floats lie twice as close, so there the lower end is half as far away. -/
def roundsTo (decimal : Decimal) (significand : Nat) (exponent : Int) : Bool :=
  let narrowBelow := significand = Binary64.leadingBit && Binary64.minExponent < exponent
  let lower := if narrowBelow then 4 * significand - 1 else 4 * significand - 2
  let upper := 4 * significand + 2
  let closed := significand % 2 == 0
  let fromLower := compareScaled decimal.digits decimal.exponent lower (exponent - 2)
  let fromUpper := compareScaled decimal.digits decimal.exponent upper (exponent - 2)
  (fromLower == .gt || (closed && fromLower == .eq)) &&
    (fromUpper == .lt || (closed && fromUpper == .eq))

/-- How many decimal digits a natural number has. -/
def digitCount (n : Nat) : Nat := (Nat.toDigits 10 n).length

/-- The least `k` with `significand * 2 ^ exponent < 10 ^ k`, for a positive significand. -/
def magnitude (significand : Nat) (exponent : Int) : Int :=
  let numerator := significand <<< exponent.toNat
  let denominator := 1 <<< (-exponent).toNat
  if denominator ≤ numerator then digitCount (numerator / denominator)
  else 1 - digitCount ((denominator - 1) / numerator)

/-- The nearer of the float's two neighbours on the grid of multiples of `10 ^ place`, if one of
them rounds to the float. Halfway between the two, the upper one is taken. -/
def onGrid? (significand : Nat) (exponent place : Int) : Option Decimal :=
  let numerator := (significand * Nat.pow 10 (-place).toNat) <<< exponent.toNat
  let denominator := Nat.pow 10 place.toNat <<< (-exponent).toNat
  let below : Decimal := ⟨numerator / denominator, place⟩
  let above : Decimal := ⟨numerator / denominator + 1, place⟩
  match below.roundsTo significand exponent, above.roundsTo significand exponent with
  | true, true => some (if 2 * (numerator % denominator) < denominator then below else above)
  | true, false => some below
  | false, true => some above
  | false, false => none

/-- Moves trailing zeros of the digits into the exponent; `fuel` bounds their number. -/
def strip : Nat → Decimal → Decimal
  | 0, decimal => decimal
  | fuel + 1, decimal =>
    if decimal.digits % 10 = 0 && decimal.digits ≠ 0 then
      strip fuel ⟨decimal.digits / 10, decimal.exponent + 1⟩
    else decimal

/-- The exact value of `significand * 2 ^ exponent` in decimal. -/
def exactly (significand : Nat) (exponent : Int) : Decimal :=
  ⟨(significand * Nat.pow 5 (-exponent).toNat) <<< exponent.toNat, min exponent 0⟩

/-- The shortest decimal that rounds to `significand * 2 ^ exponent`, for a positive significand.
Seventeen digits always suffice for a float; the grids are tried from the coarsest. -/
def shortest (significand : Nat) (exponent : Int) : Decimal :=
  let scale := magnitude significand exponent
  let found := (List.range 17).findSome? fun (n : Nat) =>
    onGrid? significand exponent (scale - (n + 1))
  strip 400 (found.getD (exactly significand exponent))

end Decimal

end ArrayGraph
