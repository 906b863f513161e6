import Mathlib
import Blum.Proofs.EulerSymbol

/-!
# Symbols and roots modulo one number

For an odd prime the symbol tells the multiples of the prime, the other squares
and the numbers that are no squares apart. Nothing is asked of the number that
the symbol is taken of, neither its sign nor its size.

The root needs a modulus that is 3 modulo 4 and nothing more. If the symbol is
1 then it is a root, its own symbol is 1 and that of its negative -1, also when
the modulus is composite. Where the symbol is -1 the same power is a root of the
negative, so for a prime it never looks like a root of a number that has none.
-/

namespace Blum

def IsSquareMod (a m : Int) : Prop :=
  ∃ z : Int, z ^ 2 ≡ a [ZMOD m]

theorem isSquareMod_iff {a : Int} {p : Nat} : IsSquareMod a p ↔ IsSquare (a : ZMod p) := by
  constructor
  · rintro ⟨z, hz⟩
    refine ⟨z, ?_⟩
    rw [← (ZMod.intCast_eq_intCast_iff _ _ p).mpr hz, Int.cast_pow, sq]
  · rintro ⟨z, hz⟩
    obtain ⟨z, rfl⟩ := ZMod.intCast_surjective z
    refine ⟨z, (ZMod.intCast_eq_intCast_iff _ _ p).mp ?_⟩
    rw [hz, Int.cast_pow, sq]

/-! ## Prime moduli -/

section Prime

variable {p : Nat} [Fact p.Prime] (h2 : p ≠ 2)
include h2

theorem eulerSymbol_natCast (a : Int) : eulerSymbol a p = .ok (legendreSym p a) := by
  have hp : p.Prime := Fact.out
  have : Fact (p : Int).toNat.Prime := ⟨hp⟩
  have h3 : (3 : Int) ≤ p := by
    have := hp.two_le
    omega
  exact eulerSymbol_eq_legendreSym h3 a

theorem eulerSymbol_eq_zero_iff (a : Int) : eulerSymbol a p = .ok 0 ↔ (p : Int) ∣ a := by
  rw [eulerSymbol_natCast h2, Except.ok.injEq, legendreSym.eq_zero_iff,
    ZMod.intCast_zmod_eq_zero_iff_dvd]

theorem eulerSymbol_eq_one_iff_isSquareMod (a : Int) :
    eulerSymbol a p = .ok 1 ↔ ¬ (p : Int) ∣ a ∧ IsSquareMod a p := by
  rw [← eulerSymbol_eq_zero_iff h2, eulerSymbol_natCast h2, isSquareMod_iff,
    Except.ok.injEq, Except.ok.injEq]
  constructor
  · intro h
    have h0 : legendreSym p a ≠ 0 := by
      rw [h]
      exact one_ne_zero
    exact ⟨h0, (legendreSym.eq_one_iff p ((legendreSym.eq_zero_iff p a).not.mp h0)).mp h⟩
  · rintro ⟨h0, hsquare⟩
    exact (legendreSym.eq_one_iff p ((legendreSym.eq_zero_iff p a).not.mp h0)).mpr hsquare

theorem eulerSymbol_eq_neg_one_iff (a : Int) :
    eulerSymbol a p = .ok (-1) ↔ ¬ IsSquareMod a p := by
  rw [eulerSymbol_natCast h2, Except.ok.injEq, legendreSym.eq_neg_one_iff, isSquareMod_iff]

end Prime

/-! ## Moduli that are 3 modulo 4 -/

section ThreeModFour

variable {p a : Int} (hp : 3 ≤ p) (h4 : p % 4 = 3)
include hp h4

theorem eulerSymbol_pick_root (ha : eulerSymbol a p = .ok 1) (σ : Selector) :
    eulerSymbol (σ.pick (a ^ rootExponent p % p) p) p = .ok σ.toInt := by
  rw [eulerSymbol_eq_toInt_iff hp]
  have hpick : σ.pick (a ^ rootExponent p % p) p ≡ σ.toInt * a ^ rootExponent p [ZMOD p] :=
    (σ.pick_modEq _ p).trans ((Int.mod_modEq _ p).mul_left _)
  calc σ.pick (a ^ rootExponent p % p) p ^ symbolExponent p
      ≡ (σ.toInt * a ^ rootExponent p) ^ symbolExponent p [ZMOD p] := hpick.pow _
    _ ≡ σ.toInt [ZMOD p] :=
        pow_symbolExponent_of_root hp h4 ((eulerSymbol_eq_one_iff hp a).mp ha) σ

/-- **The root of a number of symbol 1.** -/
theorem blumRoot_of_eulerSymbol_one (ha : eulerSymbol a p = .ok 1) :
    ∃ root, blumRoot a p = .ok root ∧ 0 < root ∧ root < p ∧ root ^ 2 ≡ a [ZMOD p] ∧
      eulerSymbol root p = .ok 1 ∧ eulerSymbol (p - root) p = .ok (-1) := by
  have hpow := (eulerSymbol_eq_one_iff hp a).mp ha
  refine ⟨a ^ rootExponent p % p, blumRoot_of_pos (by omega) a,
    pow_rootExponent_emod_pos hp h4 hpow, Int.emod_lt_of_pos _ (by omega), ?_,
    eulerSymbol_pick_root hp h4 ha .plus, eulerSymbol_pick_root hp h4 ha .minus⟩
  calc (a ^ rootExponent p % p) ^ 2
      ≡ (a ^ rootExponent p) ^ 2 [ZMOD p] := (Int.mod_modEq _ p).pow 2
    _ ≡ 1 * a [ZMOD p] := sq_pow_rootExponent (σ := .plus) hp h4 hpow
    _ = a := one_mul a

theorem blumRoot_of_eulerSymbol_neg_one (ha : eulerSymbol a p = .ok (-1)) :
    ∃ root, blumRoot a p = .ok root ∧ root ^ 2 ≡ -a [ZMOD p] := by
  have hpow := (eulerSymbol_eq_toInt_iff hp a .minus).mp ha
  refine ⟨a ^ rootExponent p % p, blumRoot_of_pos (by omega) a, ?_⟩
  calc (a ^ rootExponent p % p) ^ 2
      ≡ (a ^ rootExponent p) ^ 2 [ZMOD p] := (Int.mod_modEq _ p).pow 2
    _ ≡ -1 * a [ZMOD p] := sq_pow_rootExponent (σ := .minus) hp h4 hpow
    _ = -a := neg_one_mul a

end ThreeModFour

/-- **Symbols and roots are right for every number.** For an odd prime the symbol is Legendre's:
0 for the multiples of the prime, 1 for the other squares and -1 for all the rest. For a modulus
that is 3 modulo 4, prime or not, the root of a number of symbol 1 is a root below the modulus,
with symbol 1 and a negative of symbol -1. For a prime the root of a number that is no square
squares to the negative and so not to the number. -/
theorem symbol_and_root_laws :
    (∀ (p : Nat) [Fact p.Prime], p ≠ 2 → ∀ a : Int,
      eulerSymbol a p = .ok (legendreSym p a) ∧
      (eulerSymbol a p = .ok 0 ↔ (p : Int) ∣ a) ∧
      (eulerSymbol a p = .ok 1 ↔ ¬ (p : Int) ∣ a ∧ IsSquareMod a p) ∧
      (eulerSymbol a p = .ok (-1) ↔ ¬ IsSquareMod a p)) ∧
    (∀ p : Int, 3 ≤ p → p % 4 = 3 → ∀ a, eulerSymbol a p = .ok 1 →
      ∃ root, blumRoot a p = .ok root ∧ 0 < root ∧ root < p ∧ root ^ 2 ≡ a [ZMOD p] ∧
        eulerSymbol root p = .ok 1 ∧ eulerSymbol (p - root) p = .ok (-1)) ∧
    ∀ p : Nat, p.Prime → p % 4 = 3 → ∀ a : Int, ¬ IsSquareMod a p →
      ∃ root, blumRoot a p = .ok root ∧ root ^ 2 ≡ -a [ZMOD p] ∧ ¬ root ^ 2 ≡ a [ZMOD p] := by
  refine ⟨fun p _ h2 a => ⟨eulerSymbol_natCast h2 a, eulerSymbol_eq_zero_iff h2 a,
    eulerSymbol_eq_one_iff_isSquareMod h2 a, eulerSymbol_eq_neg_one_iff h2 a⟩, ?_, ?_⟩
  · intro p hp h4 a ha
    exact blumRoot_of_eulerSymbol_one hp h4 ha
  · intro p hprime h4 a ha
    have : Fact p.Prime := ⟨hprime⟩
    have hsymbol := (eulerSymbol_eq_neg_one_iff (by omega) a).mpr ha
    obtain ⟨root, hroot, hsq⟩ := blumRoot_of_eulerSymbol_neg_one (by omega) (by omega) hsymbol
    exact ⟨root, hroot, hsq, fun h => ha ⟨root, h⟩⟩

theorem symbol_and_root_laws_ninetyOne :
    (eulerSymbol (-9) (7 : Nat) = .ok (-1) ∧ ¬ IsSquareMod (-9) (7 : Nat)) ∧
      (eulerSymbol 9 91 = .ok 1 ∧
        ∃ root, blumRoot 9 91 = .ok root ∧ 0 < root ∧ root < 91 ∧ root ^ 2 ≡ 9 [ZMOD 91] ∧
          eulerSymbol root 91 = .ok 1 ∧ eulerSymbol (91 - root) 91 = .ok (-1)) ∧
      ∃ root, blumRoot (-9) (7 : Nat) = .ok root ∧ root ^ 2 ≡ - -9 [ZMOD (7 : Nat)] ∧
        ¬ root ^ 2 ≡ -9 [ZMOD (7 : Nat)] := by
  have h7 : Fact (Nat.Prime 7) := ⟨by decide⟩
  have hvalue : eulerSymbol (-9) (7 : Nat) = .ok (-1) := by decide +kernel
  have h91 : eulerSymbol 9 91 = .ok 1 := by decide +kernel
  obtain ⟨hsymbol, hroot, hother⟩ := symbol_and_root_laws
  obtain ⟨-, -, -, hiff⟩ := hsymbol 7 (by decide) (-9)
  have hsquare := hiff.mp hvalue
  exact ⟨⟨hvalue, hsquare⟩, ⟨h91, hroot 91 (by decide) (by decide) 9 h91⟩,
    hother 7 h7.out (by decide) (-9) hsquare⟩

end Blum
