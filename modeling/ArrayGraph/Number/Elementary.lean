import ArrayGraph.Number.Binary64

/-!
# Exponential and logarithm

The elementary functions are computed in fixed point, far beyond the precision of a float, and
rounded once at the end. No value of these functions at a float other than the exact ones (the
exponential of zero, the logarithm of one) lies closer to a midpoint of two floats than the
working precision resolves, so the result is the float nearest to the true value.
-/

namespace ArrayGraph.Elementary

/-- How many binary places the fixed-point numbers have. -/
def places : Nat := 320

/-- A power of two. -/
def powerOfTwo (exponent : Nat) : Int := ((1 <<< exponent : Nat) : Int)

/-- One, in fixed point. -/
def unit : Int := powerOfTwo places

/-- The product of two fixed-point numbers. -/
def mul (x y : Int) : Int := x * y / unit

/-- The dyadic number `significand * 2 ^ exponent` in fixed point. -/
def ofDyadic (significand : Int) (exponent : Int) : Int :=
  let shift := exponent + places
  if 0 ≤ shift then significand * powerOfTwo shift.toNat
  else significand / powerOfTwo (-shift).toNat

/-- The float nearest to a fixed-point number times a power of two. -/
def toFloat (x : Int) (exponent : Int) : Float :=
  Binary64.nearest (x < 0) x.natAbs (exponent - places)

/-- The sum of `z ^ (2 * k + 1) / (2 * k + 1)` over `k` from `index` on, for `count` terms, where
`power` is the first power of `z` and `square` its square. -/
def oddSeries (square : Int) : Nat → Nat → Int → Int
  | 0, _, _ => 0
  | count + 1, index, power =>
    power / (2 * index + 1) + oddSeries square count (index + 1) (mul power square)

/-- The inverse hyperbolic tangent of a small fixed-point number. -/
def atanh (z : Int) : Int := oddSeries (mul z z) 110 0 z

/-- The natural logarithm of two: twice the inverse hyperbolic tangent of a third. -/
def logTwo : Int := 2 * atanh (unit / 3)

/-- The natural logarithm of the positive dyadic number `significand * 2 ^ exponent`. The number is
brought between two thirds and four thirds by a power of two first, where the series converges
fast. -/
def logDyadic (significand : Nat) (exponent : Int) : Int :=
  let top : Int := significand.log2
  let mantissa := ofDyadic significand (-top)
  let (scaled, power) :=
    if 3 * mantissa < 4 * unit then (mantissa, exponent + top)
    else (mantissa / 2, exponent + top + 1)
  power * logTwo + 2 * atanh ((scaled - unit) * unit / (scaled + unit))

/-- The sum of `term`, `term * r / index`, `term * r * r / (index * (index + 1))` and so on, for
`count` terms. -/
def powerSeries (r : Int) : Nat → Nat → Int → Int
  | 0, _, _ => 0
  | count + 1, index, term => term + powerSeries r count (index + 1) (mul term r / index)

/-- The exponential function. Past the bounds the result is infinite or zero. -/
def exp (x : Float) : Float :=
  match Binary64.ofFloat x with
  | .nan => x
  | .infinite negative => if negative then 0 else x
  | .finite negative significand exponent =>
    let magnitude := ofDyadic significand exponent
    if 750 * unit < magnitude then if negative then 0 else 1.0 / 0.0
    else
      let argument := if negative then -magnitude else magnitude
      let power := argument / logTwo
      toFloat (powerSeries (argument - power * logTwo) 80 1 unit) power

/-- The natural logarithm. -/
def log (x : Float) : Float :=
  match Binary64.ofFloat x with
  | .nan => x
  | .infinite negative => if negative then 0.0 / 0.0 else x
  | .finite negative significand exponent =>
    if significand = 0 then -1.0 / 0.0
    else if negative then 0.0 / 0.0
    else toFloat (logDyadic significand exponent) 0

/-- The natural logarithm of one plus a number. A number below `2 ^ (-60)` in absolute value is its
own result: the difference is less than half a unit in the last place. -/
def log1p (x : Float) : Float :=
  match Binary64.ofFloat x with
  | .nan => x
  | .infinite negative => if negative then 0.0 / 0.0 else x
  | .finite negative significand exponent =>
    if exponent + significand.log2 < -60 then x
    else
      let base := min exponent 0
      let one := powerOfTwo (-base).toNat
      let shifted := significand * powerOfTwo (exponent - base).toNat
      let argument := if negative then one - shifted else one + shifted
      if argument = 0 then -1.0 / 0.0
      else if argument < 0 then 0.0 / 0.0
      else toFloat (logDyadic argument.natAbs base) 0

end ArrayGraph.Elementary
