/-! # The shortest decimal that reads back

A finite binary number is written with the fewest significant digits that still round to it, and of
the decimals with that many digits the nearest one; if two are equally near, the larger. All
comparisons are exact, in natural numbers. The digits are laid out positionally, without an exponent
and without a fraction for whole numbers.
-/

namespace ClauseLearning.Decimal

/-- A positive binary number, with the numbers that round to it. Each is given as a numerator over
the common denominator. -/
structure RoundingInterval where
  value : Nat
  lower : Nat
  upper : Nat
  denominator : Nat
  /-- Whether the ends themselves round to the number. -/
  closed : Bool

/-- The interval that rounds to `mantissa * 2 ^ exponent`. The gap below a number whose mantissa is
the least one of its binade is half as wide, except in the lowest binade. -/
def RoundingInterval.ofBinary (mantissa : Nat) (exponent : Int) : RoundingInterval :=
  let gapBelow := if mantissa = 1 <<< 52 ∧ exponent ≠ -1074 then 1 else 2
  let scale := 1 <<< (exponent - 2).toNat
  { value := 4 * mantissa * scale
    lower := (4 * mantissa - gapBelow) * scale
    upper := (4 * mantissa + 2) * scale
    denominator := 1 <<< (2 - exponent).toNat
    closed := mantissa % 2 = 0 }

namespace RoundingInterval

/-- Whether the decimal `digits * 10 ^ place` lies in the interval. -/
def admits (interval : RoundingInterval) (digits : Nat) (place : Int) : Bool :=
  let number := digits * Nat.pow 10 place.toNat * interval.denominator
  let scale := Nat.pow 10 (-place).toNat
  if interval.closed then interval.lower * scale ≤ number ∧ number ≤ interval.upper * scale
  else interval.lower * scale < number ∧ number < interval.upper * scale

/-- The number divided by `10 ^ place`, rounded down. -/
def quotient (interval : RoundingInterval) (place : Int) : Nat :=
  interval.value * Nat.pow 10 (-place).toNat / (interval.denominator * Nat.pow 10 place.toNat)

/-- Whether, on the grid of the multiples of `10 ^ place`, the point below the number is nearer to it
than the point above. -/
def nearerBelow (interval : RoundingInterval) (place : Int) : Bool :=
  let point := interval.denominator * Nat.pow 10 place.toNat
  2 * (interval.value * Nat.pow 10 (-place).toNat % point) < point

/-- The decimal of the grid of the multiples of `10 ^ place` that lies in the interval and next to
the number, if there is one. -/
def onGrid? (interval : RoundingInterval) (place : Int) : Option Nat :=
  let below := interval.quotient place
  match interval.admits below place, interval.admits (below + 1) place with
  | true, true => some (if interval.nearerBelow place then below else below + 1)
  | true, false => some below
  | false, true => some (below + 1)
  | false, false => none

/-- The place of the first significant digit of the number. -/
def leadingPlace (interval : RoundingInterval) : Int :=
  let whole := interval.value / interval.denominator
  let inverse := (interval.denominator + interval.value - 1) / interval.value
  if whole ≠ 0 then (Nat.toDigits 10 whole).length - 1
  else 0 - (Nat.toDigits 10 (inverse - 1)).length

/-- The decimal of the coarsest grid that reads back, with its place, trying grids from the given
place down. Seventeen significant digits are always enough. -/
def search (interval : RoundingInterval) : Nat → Int → Nat × Int
  | 0, place => (interval.quotient place, place)
  | tries + 1, place =>
    match interval.onGrid? place with
    | some digits => (digits, place)
    | none => interval.search tries (place - 1)

/-- The shortest decimal that reads back, as its digits and the place of the last one. -/
def shortest (interval : RoundingInterval) : Nat × Int := interval.search 17 interval.leadingPlace

end RoundingInterval

/-- The text of `digits * 10 ^ place`, written positionally. -/
def positional (digits : Nat) (place : Int) : String :=
  let written := Nat.toDigits 10 digits
  if 0 ≤ place then String.ofList (written ++ List.replicate place.toNat '0')
  else
    let places := (-place).toNat
    let padded := List.replicate (places + 1 - written.length) '0' ++ written
    let whole := padded.take (padded.length - places)
    let fraction := ((padded.drop (padded.length - places)).reverse.dropWhile (· == '0')).reverse
    if fraction.isEmpty then String.ofList whole else String.ofList (whole ++ '.' :: fraction)

/-- The text of a floating-point number: its shortest decimal, written positionally. -/
def text (x : Float) : String :=
  let bits := x.toBits.toNat
  let sign := if bits >>> 63 = 1 then "-" else ""
  let exponent : Nat := (bits >>> 52) % 2048
  let fraction := bits % (1 <<< 52)
  if exponent = 2047 then if fraction = 0 then sign ++ "inf" else "NaN"
  else if exponent = 0 ∧ fraction = 0 then sign ++ "0"
  else
    let interval :=
      if exponent = 0 then RoundingInterval.ofBinary fraction (-1074)
      else RoundingInterval.ofBinary ((1 <<< 52) + fraction) ((exponent : Int) - 1075)
    let (digits, place) := interval.shortest
    sign ++ positional digits place

end ClauseLearning.Decimal
