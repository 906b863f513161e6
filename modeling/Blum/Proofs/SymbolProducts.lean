import Mathlib
import Blum.Proofs.EulerSymbol
import Blum.Proofs.JacobiSymbol
import Blum.Proofs.Outcomes

/-!
# The two symbols agree

One symbol is a power and needs a prime modulus to mean anything; the other is
found by reciprocity and takes any odd modulus. The second is the product of
the first over the prime factors of the modulus, each as often as it divides
the modulus, although no factor is ever looked for.

For a modulus that is 3 modulo 4 the two can be compared directly, also when it
is composite. The exponent of the power is odd then, so a power of `a` that is 1
or -1 has the symbol of `a`, and the symbols of 1 and -1 are known.
-/

namespace Blum

def eulerProduct (a : Int) (moduli : List Nat) : Except Fault Int := do
  let symbols ← moduli.mapM fun p : Nat => eulerSymbol a p
  return symbols.prod

/-! ## Prime factors -/

theorem eulerSymbol_of_prime {p : Nat} (hp : p.Prime) (h2 : p ≠ 2) (a : Int) :
    eulerSymbol a p = .ok (jacobiSym a p) := by
  have hp2 := hp.two_le
  have : Fact (p : Int).toNat.Prime := ⟨hp⟩
  rw [eulerSymbol_eq_legendreSym (by omega), jacobiSym.legendreSym.to_jacobiSym,
    Int.toNat_natCast]

theorem eulerProduct_of_prime {moduli : List Nat} (h : ∀ p ∈ moduli, p.Prime ∧ p ≠ 2)
    (a : Int) : eulerProduct a moduli = .ok (jacobiSym a moduli.prod) := by
  have hzero : ∀ p ∈ moduli, p ≠ 0 := fun p hp => (h p hp).1.ne_zero
  have hsymbols : (moduli.mapM fun p : Nat => eulerSymbol a p) = .ok (moduli.map (jacobiSym a)) :=
    mapM_eq_ok_map fun p hp => eulerSymbol_of_prime (h p hp).1 (h p hp).2 a
  rw [eulerProduct, hsymbols, jacobiSym.list_prod_right hzero]
  rfl

theorem prime_ne_two_of_mem_primeFactorsList {n : Nat} (hn : n % 2 = 1) :
    ∀ p ∈ n.primeFactorsList, p.Prime ∧ p ≠ 2 := by
  intro p hp
  refine ⟨Nat.prime_of_mem_primeFactorsList hp, ?_⟩
  rintro rfl
  have hdvd := Nat.dvd_of_mem_primeFactorsList hp
  omega

section Odd

variable {n : Nat} (hn : n % 2 = 1)
include hn

theorem jacobiSymbol_natCast (a : Int) : jacobiSymbol a n = .ok (jacobiSym a n) := by
  rw [jacobiSymbol_eq (by omega) (by omega), Int.toNat_natCast]

/-- **The symbol of an odd modulus is a product** over its prime factors. -/
theorem jacobiSymbol_eq_eulerProduct (a : Int) :
    jacobiSymbol a n = eulerProduct a n.primeFactorsList := by
  have hzero : n ≠ 0 := by omega
  rw [eulerProduct_of_prime (prime_ne_two_of_mem_primeFactorsList hn),
    Nat.prod_primeFactorsList hzero, jacobiSymbol_natCast hn]

theorem jacobiSymbol_eq_zero_iff (a : Int) :
    jacobiSymbol a n = .ok 0 ↔ 1 < Int.gcd a n := by
  have hzero : n ≠ 0 := by omega
  have hpos : 0 < Int.gcd a n := Int.gcd_pos_of_ne_zero_right a (by omega)
  rw [jacobiSymbol_natCast hn, Except.ok.injEq, jacobiSym.eq_zero_iff]
  omega

end Odd

theorem jacobiSymbol_mul_of_prime {p q : Nat} (hp : p.Prime) (hq : q.Prime) (hp2 : p ≠ 2)
    (hq2 : q ≠ 2) (a : Int) :
    ∃ s t, eulerSymbol a p = .ok s ∧ eulerSymbol a q = .ok t ∧
      jacobiSymbol a (p * q) = .ok (s * t) := by
  have hodd : p * q % 2 = 1 := by
    rw [Nat.mul_mod, hp.eq_two_or_odd.resolve_left hp2, hq.eq_two_or_odd.resolve_left hq2]
  have : NeZero p := ⟨hp.ne_zero⟩
  have : NeZero q := ⟨hq.ne_zero⟩
  refine ⟨_, _, eulerSymbol_of_prime hp hp2 a, eulerSymbol_of_prime hq hq2 a, ?_⟩
  rw [← Nat.cast_mul, jacobiSymbol_natCast hodd, jacobiSym.mul_right]

/-! ## Moduli that are 3 modulo 4 -/

section ThreeModFour

variable {m : Int} (hm : 3 ≤ m) (h4 : m % 4 = 3)
include hm h4

theorem jacobiSym_toInt (σ : Selector) : jacobiSym σ.toInt m.toNat = σ.toInt := by
  cases σ with
  | plus => exact jacobiSym.one_left _
  | minus =>
      have hodd : Odd m.toNat := Nat.odd_iff.mpr (by omega)
      rw [Selector.toInt, jacobiSym.at_neg_one hodd,
        ZMod.χ₄_nat_three_mod_four (by omega)]

theorem jacobiSym_pow_symbolExponent (a : Int) :
    jacobiSym a m.toNat ^ symbolExponent m = jacobiSym a m.toNat := by
  have hodd := odd_symbolExponent hm h4
  rcases jacobiSym.trichotomy a m.toNat with h | h | h
  · rw [h, zero_pow hodd.pos.ne']
  · rw [h, one_pow]
  · rw [h, hodd.neg_one_pow]

/-- **A power that is 1 or -1 tells the symbol**, whether the modulus is prime
or not. -/
theorem jacobiSym_of_pow_symbolExponent {a : Int} {σ : Selector}
    (ha : a ^ symbolExponent m ≡ σ.toInt [ZMOD m]) : jacobiSym a m.toNat = σ.toInt := by
  have hcast : (m.toNat : Int) = m := Int.toNat_of_nonneg (by omega)
  calc jacobiSym a m.toNat
      = jacobiSym a m.toNat ^ symbolExponent m := (jacobiSym_pow_symbolExponent hm h4 a).symm
    _ = jacobiSym (a ^ symbolExponent m) m.toNat := (jacobiSym.pow_left ..).symm
    _ = jacobiSym σ.toInt m.toNat := jacobiSym.mod_left' (by rwa [hcast])
    _ = σ.toInt := jacobiSym_toInt hm h4 σ

theorem jacobiSymbol_of_eulerSymbol {a : Int} {σ : Selector}
    (h : eulerSymbol a m = .ok σ.toInt) : jacobiSymbol a m = .ok σ.toInt := by
  have hpow := (eulerSymbol_eq_toInt_iff hm a σ).mp h
  rw [jacobiSymbol_eq (by omega) (by omega), jacobiSym_of_pow_symbolExponent hm h4 hpow]

end ThreeModFour

/-- **The two symbols agree.** For an odd modulus the symbol by reciprocity is the product of the
Euler symbols over the prime factors, and zero exactly for the numbers that are not coprime to the
modulus. Over two primes this is the product of two symbols. If the modulus is 3 modulo 4, prime or
not, an Euler symbol 1 or -1 is the symbol by reciprocity. -/
theorem jacobiSymbol_agrees :
    (∀ n : Nat, n % 2 = 1 → ∀ a : Int,
      jacobiSymbol a n = eulerProduct a n.primeFactorsList ∧
      (jacobiSymbol a n = .ok 0 ↔ 1 < Int.gcd a n)) ∧
    (∀ p q : Nat, p.Prime → q.Prime → p ≠ 2 → q ≠ 2 → ∀ a : Int,
      ∃ s t, eulerSymbol a p = .ok s ∧ eulerSymbol a q = .ok t ∧
        jacobiSymbol a (p * q) = .ok (s * t)) ∧
    ∀ m : Int, 3 ≤ m → m % 4 = 3 → ∀ a v : Int, v = 1 ∨ v = -1 →
      eulerSymbol a m = .ok v → jacobiSymbol a m = .ok v := by
  refine ⟨fun n hn a => ?_, fun p q hp hq hp2 hq2 a => ?_, ?_⟩
  · exact ⟨jacobiSymbol_eq_eulerProduct hn a, jacobiSymbol_eq_zero_iff hn a⟩
  · exact jacobiSymbol_mul_of_prime hp hq hp2 hq2 a
  · rintro m hm h4 a v (rfl | rfl) h
    · exact jacobiSymbol_of_eulerSymbol (σ := .plus) hm h4 h
    · exact jacobiSymbol_of_eulerSymbol (σ := .minus) hm h4 h

theorem jacobiSymbol_agrees_composite :
    (45 % 2 = 1 ∧ jacobiSymbol (-7) (45 : Nat) = eulerProduct (-7) [3, 3, 5]) ∧
      (Nat.Prime 7 ∧ Nat.Prime 11 ∧
        ∃ s t, eulerSymbol 6 (7 : Nat) = .ok s ∧ eulerSymbol 6 (11 : Nat) = .ok t ∧
          jacobiSymbol 6 ((7 : Nat) * (11 : Nat)) = .ok (s * t)) ∧
      91 % 4 = 3 ∧ eulerSymbol 10 91 = .ok (-1) ∧ jacobiSymbol 10 91 = .ok (-1) := by
  have hfactors : Nat.primeFactorsList 45 = [3, 3, 5] := by simp
  have h7 : Nat.Prime 7 := by decide
  have h11 : Nat.Prime 11 := by decide
  have heuler : eulerSymbol 10 91 = .ok (-1) := by decide +kernel
  obtain ⟨hproduct, hprimes, hthree⟩ := jacobiSymbol_agrees
  refine ⟨⟨by decide, ?_⟩, ⟨h7, h11, ?_⟩, by decide, heuler, ?_⟩
  · rw [← hfactors]
    exact (hproduct 45 (by decide) (-7)).1
  · exact hprimes 7 11 h7 h11 (by decide) (by decide) 6
  · exact hthree 91 (by decide) (by decide) 10 (-1) (Or.inr rfl) heuler

end Blum
