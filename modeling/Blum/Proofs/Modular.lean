import Mathlib
import Blum.Arith.Power.Lemmas
import Blum.Arith.Recombine

/-!
# Modular arithmetic as congruences

What powers, remainders, inverses and recombination compute for a positive
modulus, in terms of `Int.ModEq`. Nothing here needs a prime: recombination
works for any two moduli of which one has an inverse modulo the other.
-/

namespace Blum

/-! ## Remainders and powers -/

theorem remainder_of_pos {m : Int} (hm : 0 < m) (a : Int) :
    remainder a m = .ok (a % m) := by
  rw [remainder, if_neg hm.ne', Int.fmod_eq_emod_of_nonneg _ hm.le]

theorem natCast_toNat_emod {m : Int} (hm : 0 < m) (a : Int) :
    ((a % m).toNat : Int) = a % m :=
  Int.toNat_of_nonneg (Int.emod_nonneg _ hm.ne')

theorem power_of_pos {e m : Int} (hm : 0 < m) (he : 0 ≤ e) (a : Int) :
    power a e m = .ok (a ^ e.toNat % m) := by
  obtain ⟨k, rfl⟩ := Int.eq_ofNat_of_zero_le hm.le
  have ha := natCast_toNat_emod hm a
  rw [power, if_neg hm.ne', if_pos he, Int.fmod_eq_emod_of_nonneg _ hm.le]
  congr 1
  show (powMod (a % ((k : Int).natAbs : Int)).toNat e.toNat (k : Int).natAbs : Int)
    % k = a ^ e.toNat % k
  rw [Int.natAbs_natCast, powMod_eq]
  push_cast
  rw [ha, Int.emod_emod_of_dvd _ dvd_rfl]
  exact (Int.mod_modEq a k).pow e.toNat

/-! ## Inverses

Along the Euclidean algorithm each remainder is, modulo `m`, its multiplier
times `a`. The last remainder is the greatest common divisor, so its
multiplier inverts `a` exactly when that divisor is 1. -/

theorem euclid_fst (r₀ r₁ : Nat) (t₀ t₁ : Int) :
    (euclid r₀ r₁ t₀ t₁).1 = Nat.gcd r₀ r₁ := by
  induction r₀, r₁, t₀, t₁ using euclid.induct with
  | case1 r₀ t₀ t₁ => simp [euclid]
  | case2 r₀ r₁ t₀ t₁ hr ih =>
      rw [euclid, if_neg hr, ih, Nat.gcd_comm, ← Nat.gcd_rec, Nat.gcd_comm]

theorem euclid_modEq {a m : Int} (r₀ r₁ : Nat) (t₀ t₁ : Int)
    (h₀ : r₀ ≡ t₀ * a [ZMOD m]) (h₁ : r₁ ≡ t₁ * a [ZMOD m]) :
    (euclid r₀ r₁ t₀ t₁).1 ≡ (euclid r₀ r₁ t₀ t₁).2 * a [ZMOD m] := by
  induction r₀, r₁, t₀, t₁ using euclid.induct with
  | case1 r₀ t₀ t₁ => simpa [euclid] using h₀
  | case2 r₀ r₁ t₀ t₁ hr ih =>
      rw [euclid, if_neg hr]
      refine ih h₁ ?_
      calc ((r₀ % r₁ : Nat) : Int) = r₀ - (r₀ / r₁ : Nat) * r₁ := by
            rw [Int.natCast_mod, Int.natCast_div, Int.emod_def, mul_comm]
        _ ≡ t₀ * a - (r₀ / r₁ : Nat) * (t₁ * a) [ZMOD m] := h₀.sub (h₁.mul_left _)
        _ = (t₀ - (r₀ / r₁ : Nat) * t₁) * a := by ring

section Inverse

variable {a : Int} {m : Nat} (hm : 0 < m)
include hm

/-- What the algorithm is started on: the modulus, which is 0 times `a`, and
the residue, which is once `a`. -/
theorem euclid_residue : (euclid m (a % m).toNat 0 1).1 = Int.gcd a m ∧
    (Int.gcd a m : Int) ≡ (euclid m (a % m).toNat 0 1).2 * a [ZMOD m] := by
  have hres : ((a % m).toNat : Int) = a % m := natCast_toNat_emod (by omega) a
  have hgcd : (euclid m (a % m).toNat 0 1).1 = Int.gcd a m := by
    rw [euclid_fst, ← Int.gcd_natCast_natCast, hres, Int.gcd_comm, Int.gcd_emod]
  refine ⟨hgcd, ?_⟩
  rw [← hgcd]
  refine euclid_modEq _ _ _ _ ?_ ?_
  · rw [zero_mul]
    exact Int.modEq_zero_iff_dvd.mpr dvd_rfl
  · rw [hres, one_mul]
    exact Int.mod_modEq _ _

/-- **Inverses.** Coprime numbers have an inverse in `[0, m)`. -/
theorem inverse?_of_gcd_eq_one (h : Int.gcd a m = 1) :
    ∃ b : Nat, inverse? a m = some b ∧ b < m ∧ b * a ≡ 1 [ZMOD m] := by
  obtain ⟨hfst, hmod⟩ := euclid_residue (a := a) hm
  rw [h] at hfst hmod
  set t := (euclid m (a % m).toNat 0 1).2 with ht
  have hres : ((t % m).toNat : Int) = t % m := natCast_toNat_emod (by omega) t
  refine ⟨(t % m).toNat, ?_, ?_, ?_⟩
  · simp only [inverse?, hfst, if_true, ht]
  · have := Int.emod_lt_of_pos t (by omega : (0 : Int) < m)
    omega
  · rw [hres]
    exact ((Int.mod_modEq _ _).mul_right a).trans hmod.symm

theorem inverse?_of_gcd_ne_one (h : Int.gcd a m ≠ 1) : inverse? a m = none := by
  obtain ⟨hfst, -⟩ := euclid_residue (a := a) hm
  simp only [inverse?, hfst, h, if_false]

end Inverse

theorem modEq_of_mul_modEq_one {a m b c : Int} (hb : b * a ≡ 1 [ZMOD m])
    (hc : c * a ≡ 1 [ZMOD m]) : b ≡ c [ZMOD m] := by
  calc b = b * 1 := (mul_one b).symm
    _ ≡ b * (c * a) [ZMOD m] := hc.symm.mul_left b
    _ = c * (b * a) := by ring
    _ ≡ c * 1 [ZMOD m] := hb.mul_left c
    _ = c := mul_one c

theorem isCoprime_of_mul_modEq_one {p q u : Int} (hu : u * p ≡ 1 [ZMOD q]) :
    IsCoprime p q := by
  obtain ⟨k, hk⟩ := hu.dvd
  refine ⟨u, k, ?_⟩
  rw [mul_comm k, ← hk]
  ring

/-! ## Recombination

The formula adds to `xp` a multiple of `p` that is reduced modulo `q` only.
It therefore stays below `p * q` by itself, and the coefficient `u` matters
only through `u * p` modulo `q`. -/

def garner (xp xq p q u : Int) : Int :=
  xp + p * ((xq - xp) * u % q)

theorem recombine_of_pos {q : Int} (hq : 0 < q) (xp xq p u : Int) :
    recombine xp xq p q u = .ok (garner xp xq p q u) := by
  rw [recombine, remainder_of_pos hq]
  rfl

theorem garner_modEq_left (xp xq p q u : Int) :
    garner xp xq p q u ≡ xp [ZMOD p] := by
  have h : p * ((xq - xp) * u % q) ≡ 0 [ZMOD p] :=
    Int.modEq_zero_iff_dvd.mpr (dvd_mul_right _ _)
  calc xp + p * ((xq - xp) * u % q)
      ≡ xp + 0 [ZMOD p] := h.add_left xp
    _ = xp := add_zero xp

theorem garner_modEq_right {p q u : Int} (hu : u * p ≡ 1 [ZMOD q]) (xp xq : Int) :
    garner xp xq p q u ≡ xq [ZMOD q] := by
  have hk : (xq - xp) * u % q ≡ (xq - xp) * u [ZMOD q] := Int.mod_modEq _ _
  calc xp + p * ((xq - xp) * u % q)
      ≡ xp + p * ((xq - xp) * u) [ZMOD q] := (hk.mul_left p).add_left xp
    _ = xp + (xq - xp) * (u * p) := by ring
    _ ≡ xp + (xq - xp) * 1 [ZMOD q] := (hu.mul_left _).add_left xp
    _ = xq := by ring

theorem garner_nonneg {xp p q : Int} (hp : 0 ≤ p) (hq : 0 < q) (hx : 0 ≤ xp)
    (xq u : Int) : 0 ≤ garner xp xq p q u := by
  have hk : 0 ≤ (xq - xp) * u % q := Int.emod_nonneg _ hq.ne'
  have := mul_nonneg hp hk
  rw [garner]
  omega

theorem garner_lt {xp p q : Int} (hq : 0 < q) (hx : 0 ≤ xp) (hxp : xp < p)
    (xq u : Int) : garner xp xq p q u < p * q := by
  have hk : (xq - xp) * u % q + 1 ≤ q := Int.emod_lt_of_pos _ hq
  calc xp + p * ((xq - xp) * u % q)
      < p + p * ((xq - xp) * u % q) := by omega
    _ = p * ((xq - xp) * u % q + 1) := by ring
    _ ≤ p * q := mul_le_mul_of_nonneg_left hk (by omega)

/-- **Uniqueness of recombination.** Two numbers in `[0, p * q)` that agree
modulo both coprime factors are equal. -/
theorem eq_of_modEq_factors {p q x y : Int} (hpq : IsCoprime p q)
    (hx : 0 ≤ x) (hxn : x < p * q) (hy : 0 ≤ y) (hyn : y < p * q)
    (h₁ : x ≡ y [ZMOD p]) (h₂ : x ≡ y [ZMOD q]) : x = y := by
  have h : x ≡ y [ZMOD p * q] :=
    (Int.modEq_and_modEq_iff_modEq_mul
      (Int.isCoprime_iff_gcd_eq_one.mp hpq)).mp ⟨h₁, h₂⟩
  rwa [Int.ModEq, Int.emod_eq_of_lt hx hxn, Int.emod_eq_of_lt hy hyn] at h

end Blum
