import Blum.Fault

/-! # Powers and inverses modulo an integer

Modular powers by repeated squaring (`powMod`), the extended Euclidean algorithm (`inverse?`),
and the same over all integers, where a modulus may be negative or zero and an exponent
negative (`power`, `remainder`). Remainders take the sign of the modulus. -/

namespace Blum

/-- `base ^ exponent % modulus`, by squaring. -/
def powMod (base exponent modulus : Nat) : Nat :=
  if exponent = 0 then 1 % modulus
  else
    let square := powMod (base * base % modulus) (exponent / 2) modulus
    if exponent % 2 = 0 then square else square * base % modulus
termination_by exponent
decreasing_by omega

/-- The last non-zero remainder of the Euclidean algorithm on `r₀` and `r₁`, with the
multiplier that the same steps make of `t₀` and `t₁`. -/
def euclid (r₀ r₁ : Nat) (t₀ t₁ : Int) : Nat × Int :=
  if r₁ = 0 then (r₀, t₀)
  else euclid r₁ (r₀ % r₁) t₁ (t₀ - (r₀ / r₁ : Nat) * t₁)
termination_by r₁
decreasing_by exact Nat.mod_lt _ (by omega)

def inverse? (a : Int) (m : Nat) : Option Nat :=
  let (g, t) := euclid m (a % m).toNat 0 1
  if g = 1 then some (t % m).toNat else none

/-- The remainder of `a` with the sign of `m`. -/
def remainder (a m : Int) : Except Fault Int :=
  if m = 0 then .error .divisionByZero else .ok (a.fmod m)

/-- `a ^ e` modulo `m`, with the sign of `m`. A negative exponent asks for a power of the
inverse. -/
def power (a e m : Int) : Except Fault Int :=
  if m = 0 then .error .zeroModulus
  else
    let size := m.natAbs
    if 0 ≤ e then
      .ok (Int.fmod (powMod (a % size).toNat e.toNat size) m)
    else
      match inverse? a size with
      | some b => .ok (Int.fmod (powMod b (-e).toNat size) m)
      | none => .error .notInvertible

def inverse (a m : Int) : Except Fault Int :=
  if m = 0 then .error .divisionByZero
  else if m < 0 then .error .notInvertible
  else
    match inverse? a m.toNat with
    | some b => .ok b
    | none => .error .notInvertible

/-- The number of binary digits of `n`. Zero has none. -/
def bitLength (n : Nat) : Nat :=
  if n = 0 then 0 else n.log2 + 1

end Blum
