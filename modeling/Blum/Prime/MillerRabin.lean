import Blum.Arith.Power

/-! # The Miller-Rabin test

One round of the test for an odd number `n`, with `n - 1 = 2 ^ twos * odd`: a base passes if
its power to `odd` is 1 or -1, or if squaring that power fewer than or exactly `twos` times
meets -1 before 1. Every base passes for a prime, so a base that does not pass proves `n`
composite. -/

namespace Blum.Prime

def twos (m : Nat) : Nat :=
  if m = 0 then 0 else if m % 2 = 0 then twos (m / 2) + 1 else 0
termination_by m
decreasing_by omega

/-- What is left of `m` without its factors 2. -/
def oddPart (m : Nat) : Nat :=
  m >>> twos m

/-- Squares `z` modulo `n` up to `k` times and accepts when it meets -1 before 1. -/
def meetsMinusOne (n : Nat) : Nat → Nat → Bool
  | 0, _ => false
  | k + 1, z =>
    let square := z * z % n
    if square = 1 then false
    else if square = n - 1 then true
    else meetsMinusOne n k square

def passes (n a : Nat) : Bool :=
  let z := powMod a (oddPart (n - 1)) n
  z == 1 || z == n - 1 || meetsMinusOne n (twos (n - 1)) z

end Blum.Prime
