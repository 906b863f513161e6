/-! # Small primes

The primes up to 104729, which is the ten thousandth prime. A number up to this bound that is
not prime has a divisor below 324, because 324 * 324 exceeds the bound. -/

namespace Blum.Prime

def tableBound : Nat := 104729

/-- A number below 324 * 324 is prime if nothing from 2 to 323 divides it properly. -/
def isSmallPrime (n : Nat) : Bool :=
  2 ≤ n && (List.range' 2 322).all fun d => n ≤ d || n % d != 0

def table : List Nat :=
  (List.range (tableBound + 1)).filter isSmallPrime

/-- Looks for `n` and for its divisors in a list of primes. The first prime that is `n` proves
`n` prime, the first that divides `n` proves it composite, and without either the list does not
tell. -/
def trialDivision (n : Nat) : List Nat → Option Bool
  | [] => none
  | p :: ps =>
    if n = p then some true
    else if n % p = 0 then some false
    else trialDivision n ps

end Blum.Prime
