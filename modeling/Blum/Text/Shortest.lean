import Blum.Text.Decimal

/-! # Shortest text of a double

The fewest decimal digits that read back as the same double. The reals that round to a double
form an interval, from halfway to the neighbour below to halfway to the neighbour above, with
its ends exactly if the mantissa is even. Grids of powers of ten are tried from the coarsest to
finer ones; on each, only the two neighbours of the double can lie in the interval. -/

namespace Blum.Text

/-- The reals that round to a double, in units of `2 ^ -1077`. -/
structure Rounding where
  value : Nat
  low : Nat
  high : Nat
  closed : Bool
  deriving DecidableEq, Repr

namespace Rounding

def unit : Nat := 1 <<< 1077

/-- The interval of a positive double. Below a power of two the neighbour is half as far away,
unless the numbers below are subnormal. -/
def ofFloat (x : Float) : Rounding :=
  let (mantissa, exponent) := magnitude x
  let value := mantissa <<< (exponent + 2)
  let half := 1 <<< (exponent + 1)
  let narrow := mantissa = 0x10000000000000 ∧ 1 < exponent
  { value
    low := value - if narrow then half / 2 else half
    high := value + half
    closed := mantissa % 2 = 0 }

def admits (i : Rounding) (digits scale : Nat) : Bool :=
  let low := i.low * scale
  let high := i.high * scale
  low < digits && digits < high || i.closed && (digits = low || digits = high)

/-- The number on the grid of a power of ten that reads back, if there is one. Of two the nearer
is taken, and of two equally near ones the even one. -/
def onGrid (i : Rounding) (power : Int) : Option Nat :=
  let scale := Nat.pow 10 (-power).toNat
  let step := unit * Nat.pow 10 power.toNat
  let below := i.value * scale / step
  let nearest := roundHalfEven (i.value * scale) step
  let other := if nearest = below then below + 1 else below
  [nearest, other].find? fun k => i.admits (k * step) scale

end Rounding

/-- The fewest digits that read back as a positive double, and how many places the point stands
to the right of the first digit's left edge. Seventeen digits always read back. -/
def shortestDigits (x : Float) : List Char × Int :=
  let i := Rounding.ofFloat x
  let first := decade i.value Rounding.unit
  let found := (List.range 17).findSome? fun (n : Nat) =>
    (i.onGrid (first - n)).map fun k => (k, first - n)
  let (digits, power) :=
    match found with
    | some hit => hit
    | none =>
      let rounded := significant i.value Rounding.unit 17
      (rounded.digits, rounded.decade - 16)
  (trimmed digits, power + digitCount digits)

/-- Digits with the point between or before them. A whole number gets a zero after the point. -/
def positional (digits : List Char) (point : Int) : List Char :=
  if point ≤ 0 then '0' :: '.' :: List.replicate (-point).toNat '0' ++ digits
  else
    let whole := digits.take point.toNat
    let fraction := digits.drop point.toNat
    whole ++ List.replicate (point.toNat - whole.length) '0' ++ '.' ::
      (if fraction.isEmpty then ['0'] else fraction)

def exponentText (e : Int) : List Char :=
  let digits := Nat.toDigits 10 e.natAbs
  'e' :: (if e < 0 then '-' else '+') :: List.replicate (2 - digits.length) '0' ++ digits

def scientific (digits : List Char) (point : Int) : List Char :=
  let mantissa :=
    match digits with
    | [] | [_] => digits
    | d :: rest => d :: '.' :: rest
  mantissa ++ exponentText (point - 1)

/-- The shortest text of a double. The point is written where it stands from 0.0001 up to
sixteen digits before it, and an exponent outside of that. -/
def shortest (x : Float) : String :=
  if x.isNaN then "nan"
  else
    let sign := if isNegative x then "-" else ""
    let body :=
      if x.isInf then "inf".toList
      else if x == 0 then "0.0".toList
      else
        let (digits, point) := shortestDigits x
        if -4 < point ∧ point ≤ 16 then positional digits point else scientific digits point
    sign ++ String.ofList body

end Blum.Text
