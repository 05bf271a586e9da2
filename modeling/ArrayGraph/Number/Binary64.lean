/-!
# Binary floating-point numbers

A finite 64-bit float is a whole number of units in the last place: a sign, a significand below
`2 ^ 53` and an exponent of two. This file takes a float apart into those three numbers and puts
the nearest float together again from an exact dyadic number. Everything that has to be exact
about numbers (their text, their integral part, the elementary functions) goes through these two
directions and natural-number arithmetic.
-/

namespace ArrayGraph

/-- What the bits of a 64-bit float stand for. -/
inductive Binary64 where
  | nan
  | infinite (negative : Bool)
  /-- The number `significand * 2 ^ exponent`, with its sign. Zero keeps a sign too. -/
  | finite (negative : Bool) (significand : Nat) (exponent : Int)
deriving DecidableEq, Repr

namespace Binary64

/-- The least exponent of a finite float, which every subnormal number has. -/
def minExponent : Int := -1074

/-- The least significand of a normal float, which has fifty-two bits after its leading one. -/
def leadingBit : Nat := 1 <<< 52

/-- Reads a bit pattern: one sign bit, eleven exponent bits, fifty-two fraction bits. -/
def ofBits (bits : UInt64) : Binary64 :=
  let pattern := bits.toNat
  let negative := pattern >>> 63 == 1
  let biased : Nat := (pattern >>> 52) % 2048
  let fraction := pattern % leadingBit
  if biased = 2047 then
    if fraction = 0 then .infinite negative else .nan
  else if biased = 0 then .finite negative fraction minExponent
  else .finite negative (leadingBit + fraction) ((biased : Int) - 1075)

/-- The parts of a float. -/
def ofFloat (x : Float) : Binary64 := ofBits x.toBits

/-- The quotient of two natural numbers rounded to the nearest one, a half going to the even
neighbour. -/
def roundHalfEven (numerator denominator : Nat) : Nat :=
  let quotient := numerator / denominator
  let remainder := numerator % denominator
  if 2 * remainder < denominator then quotient
  else if denominator < 2 * remainder then quotient + 1
  else quotient + quotient % 2

/-- The float with a given sign nearest to `significand * 2 ^ exponent`, a half going to the even
neighbour. Numbers past the largest float become infinite. -/
def nearest (negative : Bool) (significand : Nat) (exponent : Int) : Float :=
  let sign : Nat := if negative then 1 <<< 63 else 0
  if significand = 0 then Float.ofBits (UInt64.ofNat sign)
  else
    -- The exponent of the last place that the result can have.
    let place := max minExponent (exponent + significand.log2 - 52)
    let rounded :=
      if place ≤ exponent then significand <<< (exponent - place).toNat
      else roundHalfEven significand (1 <<< (place - exponent).toNat)
    -- A carry into the next power of two is the next pattern, so no case is needed for it.
    let pattern :=
      if rounded < leadingBit then rounded
      else (place - minExponent).toNat * leadingBit + rounded
    Float.ofBits (UInt64.ofNat (sign + min pattern (2047 * leadingBit)))

/-- The integral part of a number: the digits after the binary point are dropped, and the sign is
kept. -/
def trunc (x : Float) : Float :=
  match ofFloat x with
  | .finite negative significand exponent =>
    if exponent < 0 then nearest negative (significand >>> (-exponent).toNat) 0 else x
  | .infinite _ | .nan => x

end Binary64

end ArrayGraph
