import Blum.Prime.MillerRabin
import Blum.Prime.Table
import Blum.Random.Integer

/-! # Primality of candidates

A candidate is tried against the table of small primes first. Where the table does not tell,
Miller-Rabin rounds with random bases follow, as many as the tolerated error rate asks for.
Below the square of the table's bound the table alone decides, so there the answer does not
depend on the bases. -/

namespace Blum.Prime

/-- The number of rounds that bring the error rate down to `rate`: the logarithm of `1 / rate`
to the base 4, rounded up. A rate of 1 or more asks for no round. -/
def rounds (rate : Argument) : Except Fault Nat :=
  match rate with
  | .float x =>
    if 0 < x && x < 1 then .ok (-(x.log) / Float.log 4).ceil.toUInt64.toNat
    else if 0 < x then
      if x.isInf then .error .tooLarge else .ok 0
    else .error .noLogarithm
  | a => do
    let i ← a.count
    if 0 < i then .ok 0 else .error .noLogarithm

/-- Runs rounds with bases that are drawn from `[2, n)` and all different, until one fails. -/
def runRounds (n : Nat) : Nat → List Nat → Draw Bool
  | 0, _ => return true
  | k + 1, used => do
    let a ← Draw.choose 2 (n - 3) fun a => !used.contains a
    if passes n a then runRounds n k (a :: used) else return false

def isPrime (n : Nat) (rate : Argument) : Draw Bool := do
  if n < 3 ∨ n % 2 = 0 then return n = 2
  match trialDivision n table with
  | some answer => return answer
  | none =>
    let k ← rounds rate
    runRounds n (min k (n - 2)) []

end Blum.Prime
