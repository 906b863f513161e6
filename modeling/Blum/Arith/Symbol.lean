import Blum.Arith.Power

/-! # Residue symbols and roots

Three ways to ask about squares modulo an integer. `eulerSymbol` raises to the power
`(p - 1) / 2`, which for an odd prime `p` is the Legendre symbol. `jacobiSymbol` follows the
reciprocity law and never needs a factor of the modulus. `blumRoot` raises to the power
`(p + 1) / 4`, which turns a square modulo `p` into one of its roots when `p` is 3 modulo 4. -/

namespace Blum

/-- `a ^ ((p - 1) / 2)` modulo `p`, where the residue `p - 1` is written -1. -/
def eulerSymbol (a p : Int) : Except Fault Int := do
  let t ← power a ((p - 1) / 2) p
  return if t = p - 1 then -1 else t

/-- The root of a square modulo a prime `p` that is 3 modulo 4. Of the two roots it is the one
that is itself a square. -/
def blumRoot (a p : Int) : Except Fault Int :=
  power a ((p + 1) / 4) p

def symbolOfTwo (n : Nat) : Int :=
  if n % 8 = 1 ∨ n % 8 = 7 then 1 else -1

def reciprocitySign (a n : Nat) : Int :=
  if a % 4 = 3 ∧ n % 4 = 3 then -1 else 1

/-- The Jacobi symbol of `a` over an odd number `n`: factors 2 are taken out of `a`, and an odd
`a` changes places with `n`. -/
def jacobiNat (a n : Nat) : Int :=
  if a = 0 then if n = 1 then 1 else 0
  else if a % 2 = 0 then symbolOfTwo n * jacobiNat (a / 2) n
  else reciprocitySign a n * jacobiNat (n % a) a
termination_by a
decreasing_by
  · omega
  · exact Nat.mod_lt _ (by omega)

def jacobiSymbol (a n : Int) : Except Fault Int :=
  if n ≤ 0 ∨ n % 2 = 0 then .error .symbolModulus
  else .ok (jacobiNat (a % n).toNat n.toNat)

end Blum
