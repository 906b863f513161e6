import Mathlib
import Blum.Arith.Symbol
import Blum.Key.Selector
import Blum.Proofs.Modular

/-!
# The Euler symbol and the Blum root

For a modulus `p ≥ 3` the symbol is 1 or -1 exactly when the power
`a ^ ((p - 1) / 2)` is. If in addition `p` is 3 modulo 4, the exponent
`(p - 1) / 2` is odd and `(p + 1) / 4` is half of its successor. These two
facts alone make the root of a square a square and its negative none; that
`p` is prime is never used. For a prime the symbol is Legendre's.
-/

namespace Blum

def symbolExponent (p : Int) : Nat := ((p - 1) / 2).toNat

def rootExponent (p : Int) : Nat := ((p + 1) / 4).toNat

theorem eulerSymbol_of_pos {p : Int} (hp : 0 < p) (a : Int) :
    eulerSymbol a p = .ok (if a ^ symbolExponent p % p = p - 1 then -1
      else a ^ symbolExponent p % p) := by
  rw [eulerSymbol, power_of_pos hp (by omega)]
  rfl

theorem blumRoot_of_pos {p : Int} (hp : 0 < p) (a : Int) :
    blumRoot a p = .ok (a ^ rootExponent p % p) :=
  power_of_pos hp (by omega) a

/-! Symbol and root depend on the residue class only. -/

theorem eulerSymbol_emod {p : Int} (hp : 0 < p) (a : Int) :
    eulerSymbol (a % p) p = eulerSymbol a p := by
  have hpow : (a % p) ^ symbolExponent p % p = a ^ symbolExponent p % p :=
    (Int.mod_modEq a p).pow _
  rw [eulerSymbol_of_pos hp, eulerSymbol_of_pos hp, hpow]

theorem blumRoot_emod {p : Int} (hp : 0 < p) (a : Int) :
    blumRoot (a % p) p = .ok (a ^ rootExponent p % p) := by
  rw [blumRoot_of_pos hp]
  exact congrArg Except.ok ((Int.mod_modEq a p).pow _)

/-- **The symbol reads off the power.** A power that is 1 or -1 modulo `p` is
what the symbol says. -/
theorem eulerSymbol_eq_toInt_iff {p : Int} (hp : 3 ≤ p) (a : Int) (σ : Selector) :
    eulerSymbol a p = .ok σ.toInt ↔ a ^ symbolExponent p ≡ σ.toInt [ZMOD p] := by
  have hlo : 0 ≤ a ^ symbolExponent p % p := Int.emod_nonneg _ (by omega)
  have hone : (1 : Int) % p = 1 := Int.emod_eq_of_lt (by omega) (by omega)
  have hneg : (-1 : Int) % p = p - 1 := by
    calc (-1 : Int) % p = (p - 1) % p := Int.modEq_iff_dvd.mpr ⟨1, by ring⟩
      _ = p - 1 := Int.emod_eq_of_lt (by omega) (by omega)
  rw [eulerSymbol_of_pos (by omega), Except.ok.injEq, Int.ModEq]
  by_cases ht : a ^ symbolExponent p % p = p - 1
  · rw [if_pos ht]
    cases σ with
    | plus =>
        rw [Selector.toInt, hone]
        constructor <;> intro h <;> omega
    | minus => simp only [Selector.toInt, hneg, ht]
  · rw [if_neg ht]
    cases σ with
    | plus => rw [Selector.toInt, hone]
    | minus =>
        rw [Selector.toInt, hneg]
        constructor <;> intro h <;> omega

theorem eulerSymbol_eq_one_iff {p : Int} (hp : 3 ≤ p) (a : Int) :
    eulerSymbol a p = .ok 1 ↔ a ^ symbolExponent p ≡ 1 [ZMOD p] :=
  eulerSymbol_eq_toInt_iff hp a .plus

/-! ## Selectors -/

theorem Selector.toInt_mul_self (σ : Selector) : σ.toInt * σ.toInt = 1 := by
  cases σ <;> rfl

theorem Selector.pick_modEq (σ : Selector) (a p : Int) :
    σ.pick a p ≡ σ.toInt * a [ZMOD p] := by
  cases σ with
  | plus => simp [Selector.pick, Selector.toInt]
  | minus =>
      show p - a ≡ -1 * a [ZMOD p]
      rw [neg_one_mul, sub_eq_add_neg]
      exact Int.add_modEq_left

theorem Selector.pick_bounds {σ : Selector} {a p : Int} (h₀ : 0 < a) (h₁ : a < p) :
    0 < σ.pick a p ∧ σ.pick a p < p := by
  cases σ <;> simp only [Selector.pick] <;> omega

/-! ## Moduli that are 3 modulo 4 -/

theorem odd_symbolExponent {p : Int} (hp : 3 ≤ p) (h4 : p % 4 = 3) :
    Odd (symbolExponent p) := by
  rw [Nat.odd_iff, symbolExponent]
  omega

theorem two_mul_rootExponent {p : Int} (hp : 3 ≤ p) (h4 : p % 4 = 3) :
    2 * rootExponent p = symbolExponent p + 1 := by
  rw [symbolExponent, rootExponent]
  omega

section ThreeModFour

variable {p : Int} (hp : 3 ≤ p) (h4 : p % 4 = 3)
include hp h4

theorem toInt_mul_pow_symbolExponent (σ : Selector) (a : Int) :
    (σ.toInt * a) ^ symbolExponent p = σ.toInt * a ^ symbolExponent p := by
  cases σ with
  | plus => simp [Selector.toInt]
  | minus =>
      have hodd := odd_symbolExponent hp h4
      rw [Selector.toInt, neg_one_mul, neg_one_mul, hodd.neg_pow]

/-- The root of a number of symbol 1 squares to it, and that of a number of symbol -1 to its
negative. -/
theorem sq_pow_rootExponent {a : Int} {σ : Selector}
    (ha : a ^ symbolExponent p ≡ σ.toInt [ZMOD p]) :
    (a ^ rootExponent p) ^ 2 ≡ σ.toInt * a [ZMOD p] := by
  calc (a ^ rootExponent p) ^ 2
      = a ^ (2 * rootExponent p) := by ring
    _ = a ^ symbolExponent p * a := by rw [two_mul_rootExponent hp h4, pow_succ]
    _ ≡ σ.toInt * a [ZMOD p] := ha.mul_right a

theorem sq_of_root {a : Int} (ha : a ^ symbolExponent p ≡ 1 [ZMOD p]) (σ : Selector) :
    (σ.toInt * a ^ rootExponent p) ^ 2 ≡ a [ZMOD p] := by
  calc (σ.toInt * a ^ rootExponent p) ^ 2
      = σ.toInt * σ.toInt * (a ^ rootExponent p) ^ 2 := by ring
    _ = (a ^ rootExponent p) ^ 2 := by rw [σ.toInt_mul_self, one_mul]
    _ ≡ 1 * a [ZMOD p] := sq_pow_rootExponent (σ := .plus) hp h4 ha
    _ = a := one_mul a

theorem pow_symbolExponent_of_root {a : Int}
    (ha : a ^ symbolExponent p ≡ 1 [ZMOD p]) (σ : Selector) :
    (σ.toInt * a ^ rootExponent p) ^ symbolExponent p ≡ σ.toInt [ZMOD p] := by
  have hroot : (a ^ rootExponent p) ^ symbolExponent p ≡ 1 [ZMOD p] := by
    rw [pow_right_comm]
    simpa using ha.pow (rootExponent p)
  rw [toInt_mul_pow_symbolExponent hp h4]
  simpa using hroot.mul_left σ.toInt

/-- Taking the selected root of a square leads back to the number that was
squared, if its symbol is the selected one. -/
theorem root_of_sq {x : Int} {σ : Selector}
    (hx : x ^ symbolExponent p ≡ σ.toInt [ZMOD p]) :
    σ.toInt * (x ^ 2) ^ rootExponent p ≡ x [ZMOD p] := by
  calc σ.toInt * (x ^ 2) ^ rootExponent p
      = σ.toInt * (x ^ symbolExponent p * x) := by
        rw [← pow_mul, two_mul_rootExponent hp h4, pow_succ]
    _ ≡ σ.toInt * (σ.toInt * x) [ZMOD p] := (hx.mul_right x).mul_left _
    _ = x := by rw [← mul_assoc, σ.toInt_mul_self, one_mul]

end ThreeModFour

/-! ## Units -/

theorem isCoprime_of_pow_symbolExponent {p a : Int} {σ : Selector} (hp : 3 ≤ p)
    (ha : a ^ symbolExponent p ≡ σ.toInt [ZMOD p]) : IsCoprime a p := by
  obtain ⟨k, hk⟩ := ha.dvd
  have hpos : 0 < symbolExponent p := by
    rw [symbolExponent]
    omega
  have hunit : IsCoprime (a ^ symbolExponent p) p := by
    refine ⟨σ.toInt, σ.toInt * k, ?_⟩
    calc σ.toInt * a ^ symbolExponent p + σ.toInt * k * p
        = σ.toInt * (a ^ symbolExponent p + p * k) := by ring
      _ = σ.toInt * σ.toInt := by rw [← hk]; ring
      _ = 1 := σ.toInt_mul_self
  exact (IsCoprime.pow_left_iff hpos).mp hunit

theorem emod_ne_zero_of_pow_symbolExponent {p a : Int} {σ : Selector} (hp : 3 ≤ p)
    (ha : a ^ symbolExponent p ≡ σ.toInt [ZMOD p]) : a % p ≠ 0 := by
  intro h
  have hunit := (isCoprime_of_pow_symbolExponent hp ha).isUnit_of_dvd'
    (Int.dvd_of_emod_eq_zero h) dvd_rfl
  rw [Int.isUnit_iff] at hunit
  omega

theorem pow_rootExponent_emod_pos {p a : Int} (hp : 3 ≤ p) (h4 : p % 4 = 3)
    (ha : a ^ symbolExponent p ≡ 1 [ZMOD p]) : 0 < a ^ rootExponent p % p := by
  have hne := emod_ne_zero_of_pow_symbolExponent (σ := .plus) hp
    (pow_symbolExponent_of_root hp h4 ha .plus)
  have hnonneg := Int.emod_nonneg (a ^ rootExponent p) (by omega : p ≠ 0)
  rw [Selector.toInt, one_mul] at hne
  omega

theorem sq_pow_symbolExponent {p x : Int} {σ : Selector}
    (hx : x ^ symbolExponent p ≡ σ.toInt [ZMOD p]) :
    (x ^ 2) ^ symbolExponent p ≡ 1 [ZMOD p] := by
  calc (x ^ 2) ^ symbolExponent p = x ^ symbolExponent p * x ^ symbolExponent p := by
        rw [← pow_mul, mul_comm, pow_mul, sq]
    _ ≡ σ.toInt * σ.toInt [ZMOD p] := hx.mul hx
    _ = 1 := σ.toInt_mul_self

/-! ## Prime moduli -/

section Prime

variable {p : Int} [hprime : Fact p.toNat.Prime] (hp : 3 ≤ p)
include hp

/-- **Euler's criterion.** For a prime the symbol is the Legendre symbol. -/
theorem eulerSymbol_eq_legendreSym (a : Int) :
    eulerSymbol a p = .ok (legendreSym p.toNat a) := by
  obtain ⟨k, rfl⟩ := Int.eq_ofNat_of_zero_le (by omega : 0 ≤ p)
  have hexp : symbolExponent k = (k : Int).toNat / 2 := by
    have hodd := hprime.out.eq_two_or_odd
    rw [symbolExponent]
    omega
  have hpow : a ^ symbolExponent k ≡ legendreSym (k : Int).toNat a [ZMOD k] := by
    refine (ZMod.intCast_eq_intCast_iff _ _ (k : Int).toNat).mp ?_
    rw [legendreSym.eq_pow, hexp, Int.cast_pow]
  by_cases h0 : (a : ZMod (k : Int).toNat) = 0
  · rw [(legendreSym.eq_zero_iff _ a).mpr h0] at hpow ⊢
    rw [eulerSymbol_of_pos (by omega), hpow, Int.zero_emod, if_neg (by omega)]
  · rcases legendreSym.eq_one_or_neg_one _ h0 with h1 | h1
    · rw [h1] at hpow ⊢
      exact (eulerSymbol_eq_toInt_iff hp a .plus).mpr hpow
    · rw [h1] at hpow ⊢
      exact (eulerSymbol_eq_toInt_iff hp a .minus).mpr hpow

theorem sq_pow_symbolExponent_of_isCoprime {z : Int} (hz : IsCoprime z p) :
    (z ^ 2) ^ symbolExponent p ≡ 1 [ZMOD p] := by
  obtain ⟨k, rfl⟩ := Int.eq_ofNat_of_zero_le (by omega : 0 ≤ p)
  have hexp : 2 * symbolExponent k = (k : Int).toNat - 1 := by
    have hodd := hprime.out.eq_two_or_odd
    rw [symbolExponent]
    omega
  rw [← pow_mul, hexp]
  exact Int.ModEq.pow_card_sub_one_eq_one hprime.out hz

end Prime

end Blum
