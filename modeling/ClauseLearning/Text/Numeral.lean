/-! # Decimal numerals

A numeral is a nonempty run of the digits 0 to 9, with an optional sign in front. Leading zeros and a
plus sign are allowed. Numerals are read into the 64-bit integers, and those outside them are refused.
-/

namespace ClauseLearning.Text

def digit? (c : Char) : Option Nat :=
  if '0'.toNat ≤ c.toNat ∧ c.toNat ≤ '9'.toNat then some (c.toNat - '0'.toNat) else none

/-- The number that digits, read after those of a given number, amount to. -/
def digitsFrom? : Nat → List Char → Option Nat
  | value, [] => some value
  | value, c :: rest =>
    match digit? c with
    | some d => digitsFrom? (10 * value + d) rest
    | none => none

/-- The number that a nonempty run of digits stands for. -/
def digits? (cs : List Char) : Option Nat := if cs.isEmpty then none else digitsFrom? 0 cs

def withoutPlus : List Char → List Char
  | '+' :: rest => rest
  | cs => cs

/-- The integer that a numeral stands for. -/
def integer? : List Char → Option Int
  | '-' :: rest => (digits? rest).map fun value : Nat => -(value : Int)
  | cs => (digits? (withoutPlus cs)).map Int.ofNat

/-- The unsigned 64-bit integer that a numeral without a minus sign stands for. -/
def unsigned? (cs : List Char) : Option Nat :=
  (digits? (withoutPlus cs)).filter fun value => decide (value < UInt64.size)

/-- The signed 64-bit integer that a numeral stands for. -/
def signed? (cs : List Char) : Option Int :=
  (integer? cs).filter fun value => decide (Int64.minValue.toInt ≤ value ∧ value ≤ Int64.maxValue.toInt)

end ClauseLearning.Text
