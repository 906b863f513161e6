import Mathlib
import Blum.Key.Private
import Blum.Proofs.Modular

/-!
# The factors of a key

What the checks on key material amount to. No check asks for the sign of a
factor or for coprimality. Both follow from the coefficient: a remainder 1
needs a positive modulus, and a number with an inverse modulo `q` has no
factor in common with it.
-/

namespace Blum

theorem PublicKey.n_pos (key : PublicKey) : 0 < key.n :=
  lt_trans one_pos key.one_lt

namespace PrivateKey

variable (key : PrivateKey)

/-! ## What the checks say -/

/-- A negative or zero `q` leaves no remainder 1. -/
theorem q_pos : 0 < key.q := by
  have hu := key.coefficient
  have hq := key.q_mod_four
  by_contra h
  -- with both signs changed the modulus is positive and the remainder -1
  have hneg : 0 ≤ (-(key.u * key.p)).fmod (-key.q) :=
    Int.fmod_nonneg_of_pos _ (by omega)
  rw [Int.neg_fmod_neg, hu] at hneg
  omega

theorem p_pos : 0 < key.p := by
  have hn := key.one_lt
  have hq := key.q_pos
  rw [← key.product] at hn
  by_contra h
  have := mul_nonpos_of_nonpos_of_nonneg (not_lt.mp h) hq.le
  omega

theorem three_le_p : 3 ≤ key.p := by
  have := key.p_pos
  have := key.p_mod_four
  omega

theorem three_le_q : 3 ≤ key.q := by
  have := key.q_pos
  have := key.q_mod_four
  omega

theorem u_mul_p_modEq : key.u * key.p ≡ 1 [ZMOD key.q] := by
  have hu := key.coefficient
  rw [Int.fmod_eq_emod_of_nonneg _ key.q_pos.le] at hu
  have hq := key.three_le_q
  rw [Int.ModEq, hu, Int.emod_eq_of_lt (by omega) (by omega)]

theorem u_ne_zero : key.u ≠ 0 := by
  intro h
  have hu := key.coefficient
  rw [h, zero_mul, Int.zero_fmod] at hu
  cases hu

theorem isCoprime_factors : IsCoprime key.p key.q :=
  isCoprime_of_mul_modEq_one key.u_mul_p_modEq

theorem n_mod_four : key.n % 4 = 1 := by
  rw [← key.product, Int.mul_emod, key.p_mod_four, key.q_mod_four]
  rfl

variable {key}

theorem p_dvd_n : key.p ∣ key.n :=
  key.product ▸ dvd_mul_right _ _

theorem q_dvd_n : key.q ∣ key.n :=
  key.product ▸ dvd_mul_left _ _

/-! Reduction modulo `n` changes nothing modulo a factor. -/

theorem emod_n_modEq_p (a : Int) : a % key.n ≡ a [ZMOD key.p] :=
  (Int.mod_modEq a key.n).of_dvd p_dvd_n

theorem emod_n_modEq_q (a : Int) : a % key.n ≡ a [ZMOD key.q] :=
  (Int.mod_modEq a key.n).of_dvd q_dvd_n

/-! Neither does adding `n`. -/

theorem n_sub_modEq_p (a : Int) : key.n - a ≡ -a [ZMOD key.p] := by
  rw [Int.modEq_iff_dvd, sub_sub_eq_add_sub, neg_add_cancel, zero_sub, dvd_neg]
  exact p_dvd_n

theorem n_sub_modEq_q (a : Int) : key.n - a ≡ -a [ZMOD key.q] := by
  rw [Int.modEq_iff_dvd, sub_sub_eq_add_sub, neg_add_cancel, zero_sub, dvd_neg]
  exact q_dvd_n

/-- Numbers below the modulus are told apart by their residues modulo the
factors. -/
theorem eq_of_modEq {x y : Int} (hx : 0 ≤ x) (hxn : x < key.n) (hy : 0 ≤ y)
    (hyn : y < key.n) (hp : x ≡ y [ZMOD key.p]) (hq : x ≡ y [ZMOD key.q]) : x = y := by
  rw [← key.product] at hxn hyn
  exact eq_of_modEq_factors key.isCoprime_factors hx hxn hy hyn hp hq

theorem eq_u_iff (hu : 0 < key.u) (huq : key.u < key.q) (v : Int) :
    (0 < v ∧ v < key.q ∧ v * key.p ≡ 1 [ZMOD key.q]) ↔ v = key.u := by
  constructor
  · rintro ⟨hv, hvq, hvp⟩
    have hmul := modEq_of_mul_modEq_one hvp key.u_mul_p_modEq
    rwa [Int.ModEq, Int.emod_eq_of_lt hv.le hvq, Int.emod_eq_of_lt hu.le huq] at hmul
  · rintro rfl
    exact ⟨hu, huq, key.u_mul_p_modEq⟩

/-! ## Keys and their checks -/

theorem ofInt?_toInt (σ : Selector) : Selector.ofInt? σ.toInt = some σ := by
  cases σ <;> rfl

theorem ofInts_public (key : PublicKey) :
    PublicKey.ofInts key.n key.r.toInt key.s.toInt = .ok key := by
  rw [PublicKey.ofInts, dif_pos ⟨key.one_lt, key.odd⟩, ofInt?_toInt, ofInt?_toInt]

/-- **Every key passes its own checks.** -/
theorem ofInts_self (key : PrivateKey) :
    ofInts key.n key.r.toInt key.s.toInt key.p key.q key.u = .ok key := by
  show (PublicKey.ofInts key.n key.r.toInt key.s.toInt).bind _ = _
  rw [ofInts_public]
  show ofPublic key.toPublicKey key.p key.q key.u = .ok key
  rw [ofPublic, dif_pos key.product, dif_pos key.distinct,
    dif_pos ⟨key.p_mod_four, key.q_mod_four⟩, if_neg key.q_pos.ne',
    dif_pos key.coefficient]

/-- **The numbers that make a key.** Nothing else needs to be known about them. -/
theorem exists_key {p q u : Int} (hp : 3 ≤ p) (hq : 3 ≤ q) (hp4 : p % 4 = 3)
    (hq4 : q % 4 = 3) (hu : u * p ≡ 1 [ZMOD q]) (r s : Selector) :
    ∃ key : PrivateKey, key.n = p * q ∧ key.r = r ∧ key.s = s ∧ key.p = p ∧ key.q = q ∧
      key.u = u := by
  have hn : 1 < p * q ∧ p * q % 2 = 1 := by
    refine ⟨by nlinarith, ?_⟩
    rw [Int.mul_emod, show p % 2 = 1 by omega, show q % 2 = 1 by omega]
    rfl
  have hcoeff : (u * p).fmod q = 1 := by
    rw [Int.fmod_eq_emod_of_nonneg _ (by omega), hu,
      Int.emod_eq_of_lt (by omega) (by omega)]
  have hpq : p ≠ q := by
    rintro rfl
    rw [Int.mul_fmod_left] at hcoeff
    cases hcoeff
  exact ⟨⟨⟨p * q, r, s, hn.1, hn.2⟩, p, q, u, rfl, hpq, hp4, hq4, hcoeff⟩,
    rfl, rfl, rfl, rfl, rfl, rfl⟩

section OfFactors

variable {p q : Int} (hq : 0 < q) (hpq : p ≠ q)

include hq hpq in
theorem deriveCoefficient_of_gcd_ne_one (h : Int.gcd p q ≠ 1) :
    deriveCoefficient p q = .error (.mismatch .noInverse) := by
  obtain ⟨k, rfl⟩ := Int.eq_ofNat_of_zero_le (by omega : 0 ≤ q)
  have hk : inverse? p k = none := inverse?_of_gcd_ne_one (by omega) h
  rw [deriveCoefficient, if_neg hpq, inverse, if_neg (by omega), if_neg (by omega),
    Int.toNat_natCast, hk]

include hq hpq in
theorem deriveCoefficient_of_gcd_eq_one (h : Int.gcd p q = 1) :
    ∃ u, deriveCoefficient p q = .ok u ∧ 0 ≤ u ∧ u < q ∧ u * p ≡ 1 [ZMOD q] := by
  obtain ⟨k, rfl⟩ := Int.eq_ofNat_of_zero_le (by omega : 0 ≤ q)
  obtain ⟨b, hb, hlt, hmod⟩ := inverse?_of_gcd_eq_one (a := p) (by omega) h
  refine ⟨b, ?_, by omega, by omega, hmod⟩
  rw [deriveCoefficient, if_neg hpq, inverse, if_neg (by omega), if_neg (by omega),
    Int.toNat_natCast, hb]

include hpq in
/-- **Coprime factors make a key**, and its coefficient is reduced. -/
theorem ofFactors_of_gcd_eq_one (hp : 3 ≤ p) (hq : 3 ≤ q) (hp4 : p % 4 = 3) (hq4 : q % 4 = 3)
    (h : Int.gcd p q = 1) (r s : Selector) :
    ∃ key, ofFactors p q r.toInt s.toInt = .ok key ∧ key.p = p ∧ key.q = q ∧
      key.r = r ∧ key.s = s ∧ 0 < key.u ∧ key.u < q := by
  obtain ⟨u, hu, hu0, huq, hmod⟩ := deriveCoefficient_of_gcd_eq_one (by omega) hpq h
  obtain ⟨key, hn, rfl, rfl, rfl, rfl, rfl⟩ := exists_key hp hq hp4 hq4 hmod r s
  refine ⟨key, ?_, rfl, rfl, rfl, rfl, ?_, huq⟩
  · show (deriveCoefficient key.p key.q).bind _ = _
    rw [hu, ← ofInts_self key, hn]
    rfl
  · exact hu0.lt_of_ne' key.u_ne_zero

include hq hpq in
/-- Factors with a common divisor make none, whatever the selectors. -/
theorem ofFactors_of_gcd_ne_one (h : Int.gcd p q ≠ 1) (r s : Int) :
    ofFactors p q r s = .error (.mismatch .noInverse) := by
  show (deriveCoefficient p q).bind _ = _
  rw [deriveCoefficient_of_gcd_ne_one hq hpq h]
  rfl

end OfFactors

theorem ofFactors_of_primes {p q : Nat} (hp : p.Prime) (hq : q.Prime) (hpq : p ≠ q)
    (hp4 : p % 4 = 3) (hq4 : q % 4 = 3) (r s : Selector) :
    ∃ key, ofFactors p q r.toInt s.toInt = .ok key ∧ key.p = p ∧ key.q = q := by
  have hgcd : Int.gcd p q = 1 := by
    rw [Int.gcd_natCast_natCast]
    exact (Nat.coprime_primes hp hq).mpr hpq
  obtain ⟨key, hkey, hkp, hkq, -⟩ := ofFactors_of_gcd_eq_one (p := (p : Int))
    (q := (q : Int)) (by omega) (by omega) (by omega) (by omega) (by omega) hgcd r s
  exact ⟨key, hkey, hkp, hkq⟩

end PrivateKey

end Blum
