/-! # Fixed-point text

A double with a fixed number of decimal places. The digits come from the exact value of the
double, which is `mantissa * 2 ^ exponent`, so the only rounding is the one to the last place.
A half goes to the even neighbour. -/

namespace Blum.Text

/-- The quotient rounded to the nearest integer, a half to the even one. -/
def roundHalfEven (num den : Nat) : Nat :=
  let quotient := num / den
  let twice := 2 * (num % den)
  if twice < den then quotient
  else if den < twice then quotient + 1
  else quotient + quotient % 2

/-- **The rounded quotient is at most half a unit away from the exact one.** -/
theorem roundHalfEven_near (num den : Nat) (hden : 0 < den) :
    2 * num ≤ 2 * (den * roundHalfEven num den) + den ∧
      2 * (den * roundHalfEven num den) ≤ 2 * num + den := by
  have hnum := Nat.div_add_mod num den
  have hrest := Nat.mod_lt num hden
  simp only [roundHalfEven]
  split
  · omega
  · split
    · rw [Nat.mul_add]
      omega
    · rcases Nat.mod_two_eq_zero_or_one (num / den) with heven | hodd
      · rw [heven, Nat.add_zero]
        omega
      · rw [hodd, Nat.mul_add]
        omega

theorem even_roundHalfEven_of_tie (num den : Nat) (htie : 2 * (num % den) = den) :
    roundHalfEven num den % 2 = 0 := by
  simp only [roundHalfEven]
  split
  · omega
  · split
    · omega
    · omega

def padLeft (width : Nat) (text : String) (fill : Char := ' ') : String :=
  "".pushn fill (width - text.length) ++ text

def padRight (width : Nat) (text : String) (fill : Char := ' ') : String :=
  text.pushn fill (width - text.length)

/-- Text in the middle of a width. An odd place goes to the right. -/
def center (width : Nat) (text : String) (fill : Char := ' ') : String :=
  let room := width - text.length
  "".pushn fill (room / 2) ++ text.pushn fill (room - room / 2)

/-- A natural number of `1 / 10 ^ places`. -/
def scaledText (scaled places : Nat) : String :=
  let unit := Nat.pow 10 places
  s!"{scaled / unit}." ++ padLeft places (toString (scaled % unit)) '0'

/-- The absolute value of a finite double as `mantissa * 2 ^ (exponent - 1075)`. -/
def magnitude (x : Float) : Nat × Nat :=
  let bits := x.toBits.toNat
  let exponent := (bits >>> 52) % 0x800
  let fraction := bits % 0x10000000000000
  if exponent = 0 then (fraction, 1) else (fraction + 0x10000000000000, exponent)

def fixedPoint (x : Float) (places : Nat) : String :=
  if x.isNaN then "nan"
  else
    let sign := if x.toBits ≥ 0x8000000000000000 then "-" else ""
    if x.isInf then sign ++ "inf"
    else
      let (mantissa, exponent) := magnitude x
      let scaled := roundHalfEven ((mantissa <<< exponent) * Nat.pow 10 places) (1 <<< 1075)
      sign ++ scaledText scaled places

end Blum.Text
