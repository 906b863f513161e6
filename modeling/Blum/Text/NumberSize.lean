import Blum.Text.Decimal

/-! # The size of written numbers

How many characters a number takes in the usual notations: whole in some base, with a fixed
number of places, with an exponent, or in whichever of the two suits it. The number of places
may be huge, so nothing is written to be counted. -/

namespace Blum.Text

structure NumberStyle where
  /-- A number that is not negative gets a sign too. -/
  signed : Bool := false
  /-- Bases are marked, points stay, and so do zeros at the end. -/
  alternate : Bool := false
  precision : Option Nat := none
  deriving DecidableEq, Repr

namespace NumberStyle

def signSize (style : NumberStyle) (negative : Bool) : Nat :=
  if negative || style.signed then 1 else 0

/-- The size of an integer in a base. The precision is the least number of digits. -/
def integerSize (style : NumberStyle) (base : Nat) (i : Int) : Nat :=
  let mark := if style.alternate && base ≠ 10 then 2 else 0
  style.signSize (i < 0) + mark + max (digitCount i.natAbs base) (style.precision.getD 0)

def fractionSize (style : NumberStyle) (places : Nat) : Nat :=
  if 0 < places then places + 1 else if style.alternate then 1 else 0

def exponentSize (e : Int) : Nat :=
  2 + max 2 (digitCount e.natAbs)

/-- Digits beyond these are all zero, for any double. -/
def enough : Nat := 1100

def fixedSize (style : NumberStyle) (num den : Nat) : Nat :=
  let places := style.precision.getD 6
  let unit := Nat.pow 10 (min places enough)
  digitCount (roundHalfEven (num * unit) den / unit) + style.fractionSize places

def scientificSize (style : NumberStyle) (num den : Nat) : Nat :=
  let places := style.precision.getD 6
  let e := if num = 0 then 0 else (significant num den (min places enough + 1)).decade
  1 + style.fractionSize places + exponentSize e

/-- The size of a quotient with a number of digits. Zeros at the end are left out unless the
style keeps them. A small or a large number gets an exponent. -/
def generalSize (style : NumberStyle) (num den : Nat) : Nat :=
  let count := max 1 (style.precision.getD 6)
  let rounded := if num = 0 then ⟨0, 0⟩ else significant num den (min count enough)
  let e := rounded.decade
  let kept := if style.alternate then count else max 1 (trimmed rounded.digits).length
  if e < -4 ∨ (count : Int) ≤ e then 1 + style.fractionSize (kept - 1) + exponentSize e
  else if e < 0 then 2 + (-e - 1).toNat + kept
  else
    let whole := e.toNat + 1
    whole + style.fractionSize (kept - whole)

/-- The size of a double, where `body` gives the size of a quotient. What is not finite is a
word of three letters. -/
def doubleSize (style : NumberStyle) (body : NumberStyle → Nat → Nat → Nat)
    (x : Float) : Nat :=
  style.signSize (isNegative x) +
    if x.isNaN || x.isInf then 3
    else
      let (num, den) := quotient x
      body style num den

end NumberStyle

end Blum.Text
