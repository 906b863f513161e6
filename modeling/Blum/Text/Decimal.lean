import Blum.Text.FixedPoint

/-! # Decimal digits of exact quotients

Where the first digit of a quotient stands, and its digits up to a given number of them. The
quotients are those of natural numbers, so nothing is lost before the last digit is rounded. A
double is such a quotient. -/

namespace Blum.Text

def digitCount (n : Nat) (base : Nat := 10) : Nat :=
  (Nat.toDigits base n).length

/-- The power of ten at the first digit of a positive quotient. -/
def decade (num den : Nat) : Int :=
  if den ≤ num then (digitCount (num / den) : Int) - 1
  else -(digitCount ((den - 1) / num) : Int)

/-- Some digits of a number, and the power of ten at the first of them. -/
structure Digits where
  digits : Nat
  decade : Int
  deriving DecidableEq, Repr

/-- A positive quotient rounded to `count` digits, a half to the even neighbour. -/
def significant (num den count : Nat) : Digits :=
  let first := decade num den
  let shift : Int := (count : Int) - 1 - first
  let digits := roundHalfEven (num * Nat.pow 10 shift.toNat) (den * Nat.pow 10 (-shift).toNat)
  if Nat.pow 10 count ≤ digits then ⟨digits / 10, first + 1⟩ else ⟨digits, first⟩

def quotient (x : Float) : Nat × Nat :=
  let (mantissa, exponent) := magnitude x
  (mantissa <<< exponent, 1 <<< 1075)

def wholePart (x : Float) : Nat :=
  let (num, den) := quotient x
  num / den

/-- The sign is set. Zero can have one, and what is not a number has none. -/
def isNegative (x : Float) : Bool :=
  !x.isNaN && x.toBits ≥ 0x8000000000000000

def trimmed (digits : Nat) : List Char :=
  ((Nat.toDigits 10 digits).reverse.dropWhile (· == '0')).reverse

end Blum.Text
