import Blum.Arith.Power
import Blum.Key.Public

/-! # Private keys

A private key adds the two factors of the modulus and the coefficient by which residues are
recombined. The checks are those that inversion needs and no more: the factors are not tested
for primality, and the coefficient is kept as it was given, reduced or not. Since `u * p` is 1
modulo `q`, the factors are coprime in every key. -/

namespace Blum

structure PrivateKey extends PublicKey where
  p : Int
  q : Int
  /-- An inverse of `p` modulo `q`. -/
  u : Int
  product : p * q = n
  distinct : p ≠ q
  p_mod_four : p % 4 = 3
  q_mod_four : q % 4 = 3
  coefficient : (u * p).fmod q = 1
  deriving DecidableEq

namespace PrivateKey

/-- Adds factors to a public key. The product is checked first, so the remainder modulo `q` is
never taken for `q = 0`. -/
def ofPublic (key : PublicKey) (p q u : Int) : Except Fault PrivateKey :=
  if hn : p * q = key.n then
    if hpq : p ≠ q then
      if hm : p % 4 = 3 ∧ q % 4 = 3 then
        if q = 0 then .error .divisionByZero
        else if hu : (u * p).fmod q = 1 then
          .ok { key with
            p, q, u
            product := hn
            distinct := hpq
            p_mod_four := hm.1
            q_mod_four := hm.2
            coefficient := hu }
        else .error (.mismatch .coefficient)
      else .error (.mismatch .residueClass)
    else .error (.mismatch .equalFactors)
  else .error (.mismatch .product)

def ofInts (n r s p q u : Int) : Except Fault PrivateKey := do
  let key ← PublicKey.ofInts n r s
  ofPublic key p q u

/-- The coefficient of two factors: the inverse of `p` modulo `q` in `[0, q)`. -/
def deriveCoefficient (p q : Int) : Except Fault Int :=
  if p = q then .error (.mismatch .equalFactors)
  else
    match inverse p q with
    | .ok u => .ok u
    | .error _ => .error (.mismatch .noInverse)

def ofFactors (p q r s : Int) : Except Fault PrivateKey := do
  let u ← deriveCoefficient p q
  ofInts (p * q) r s p q u

/-- A private key from parts of unknown type. The public part is checked completely before the
types of the others. -/
def ofArguments (n r s p q u : Argument) : Except Fault PrivateKey := do
  let key ← PublicKey.ofArguments n r s
  let p ← p.integer "p"
  let q ← q.integer "q"
  let u ← u.integer "u"
  ofPublic key p q u

/-- The private key of two factors of unknown type. The selectors are looked at last. -/
def ofFactorArguments (p q r s : Argument) : Except Fault PrivateKey := do
  let p ← p.integer "p"
  let q ← q.integer "q"
  let u ← deriveCoefficient p q
  ofArguments (.int (p * q)) r s (.int p) (.int q) (.int u)

end PrivateKey

end Blum
