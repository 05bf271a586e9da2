import ArrayGraph.Number.Shortest

/-!
# How numbers are written

Numbers are always written with the shortest digits that read back. Two layouts use them: plain
text, which never has an exponent, and bracketed listings, where a whole number keeps a `.0` and
very large and very small numbers are scientific.
-/

namespace ArrayGraph

/-- The layout decisions of a number format. -/
structure NumberFormat where
  /-- Whether a whole number ends in `.0`. -/
  pointZero : Bool
  /-- Numbers from this one on are scientific, where there is such a bound. -/
  scientificFrom : Option Float
  /-- Numbers other than zero below this one are scientific, where there is such a bound. -/
  scientificBelow : Option Float

namespace NumberFormat

/-- Plain text: positional at every size, and whole numbers have no point. -/
def plain : NumberFormat := ⟨false, none, none⟩

/-- Listings of elements: positional from `0.0001` up to below ten to the sixteenth, and a whole
number shows its point. -/
def listing : NumberFormat := ⟨true, some 1e16, some 1e-4⟩

/-- Whether a number of the given absolute value is written with an exponent. -/
def isScientific (format : NumberFormat) (absolute : Float) : Bool :=
  (match format.scientificFrom with
    | some bound => bound ≤ absolute
    | none => false) ||
  (match format.scientificBelow with
    | some bound => absolute < bound && absolute != 0
    | none => false)

/-- The digits of a decimal at their places, with zeros up to the point. -/
def positional (format : NumberFormat) (decimal : Decimal) : String :=
  let digits := Nat.toDigits 10 decimal.digits
  let whole := if format.pointZero then ".0" else ""
  if 0 ≤ decimal.exponent then
    String.ofList (digits ++ List.replicate decimal.exponent.toNat '0') ++ whole
  else
    let places := (-decimal.exponent).toNat
    if places < digits.length then
      String.ofList (digits.take (digits.length - places)) ++ "." ++
        String.ofList (digits.drop (digits.length - places))
    else
      "0." ++ String.ofList (List.replicate (places - digits.length) '0' ++ digits)

/-- One digit, the others after a point, and the exponent of ten. -/
def scientific (decimal : Decimal) : String :=
  let digits := Nat.toDigits 10 decimal.digits
  let fraction := digits.drop 1
  let exponent := decimal.exponent + (digits.length - 1 : Nat)
  String.ofList (digits.take 1) ++
    (if fraction.isEmpty then "" else "." ++ String.ofList fraction) ++ "e" ++ toString exponent

/-- The text of a number. -/
def write (format : NumberFormat) (x : Float) : String :=
  match Binary64.ofFloat x with
  | .nan => "NaN"
  | .infinite negative => if negative then "-inf" else "inf"
  | .finite negative significand exponent =>
    let decimal :=
      if significand = 0 then ⟨0, 0⟩ else Decimal.shortest significand exponent
    let absolute := Binary64.nearest false significand exponent
    (if negative then "-" else "") ++
      (if format.isScientific absolute then scientific decimal else format.positional decimal)

end NumberFormat

/-- Reads a decimal numeral: an optional sign, then `inf`, `NaN`, or digits with an optional point
and an optional exponent. -/
def readNumber? (text : String) : Option Float :=
  let (negative, body) : Bool × List Char :=
    match text.toList with
    | '-' :: rest => (true, rest)
    | '+' :: rest => (false, rest)
    | rest => (false, rest)
  let signed (x : Float) : Float := if negative then -x else x
  let lower := body.map Char.toLower
  if lower = "inf".toList || lower = "infinity".toList then some (signed (1.0 / 0.0))
  else if lower = "nan".toList then some (0.0 / 0.0)
  else
    let whole := lower.takeWhile Char.isDigit
    let afterWhole := lower.dropWhile Char.isDigit
    let (fraction, afterFraction) :=
      match afterWhole with
      | '.' :: rest => (rest.takeWhile Char.isDigit, rest.dropWhile Char.isDigit)
      | rest => ([], rest)
    let exponent? : Option Int :=
      match afterFraction with
      | [] => some 0
      | 'e' :: '-' :: rest => natural? rest |>.map fun n => -(n : Int)
      | 'e' :: '+' :: rest => natural? rest |>.map fun n => (n : Int)
      | 'e' :: rest => natural? rest |>.map fun n => (n : Int)
      | _ => none
    if whole.isEmpty && fraction.isEmpty then none
    else
      exponent?.map fun exponent =>
        let place : Int := exponent - fraction.length
        let magnitude := value (whole ++ fraction)
        signed (Float.ofScientific magnitude (place < 0) place.natAbs)
where
  /-- The number that a list of digits stands for. -/
  value (digits : List Char) : Nat :=
    digits.foldl (fun total digit => total * 10 + (digit.toNat - '0'.toNat)) 0
  /-- The number that a list of characters stands for, if they are digits. -/
  natural? (characters : List Char) : Option Nat :=
    if characters.isEmpty || !characters.all Char.isDigit then none else some (value characters)

end ArrayGraph
