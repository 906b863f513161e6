import Mathlib
import Blum.Proofs.DigitLimits
import Blum.Proofs.Factors

/-!
# Which numbers make a key

The constructors return a key exactly on the numbers that the key consists of,
and refuse everything else with the fault of mismatched key material. What can
be refused is thereby described without the checks: it is all that no key
consists of. Keys have positive and coprime factors, so numbers of any sign
and size are covered, although no check asks for a sign.

The two constructors differ in the coefficient alone. One takes it as it is
given, the other finds the one that is reduced, and from the factors of any key
it makes the same key with its coefficient reduced.
-/

namespace Blum

/-! ## Selectors -/

theorem Selector.ofInt?_eq_some_iff {v : Int} {σ : Selector} :
    Selector.ofInt? v = some σ ↔ σ.toInt = v := by
  constructor
  · intro h
    have hv := List.find?_some h
    exact beq_iff_eq.mp hv
  · rintro rfl
    exact PrivateKey.ofInt?_toInt σ

theorem Selector.exists_toInt_eq_iff {v : Int} :
    (∃ σ : Selector, σ.toInt = v) ↔ v = 1 ∨ v = -1 := by
  constructor
  · rintro ⟨σ, rfl⟩
    cases σ with
    | plus => exact Or.inl rfl
    | minus => exact Or.inr rfl
  · rintro (rfl | rfl)
    · exact ⟨.plus, rfl⟩
    · exact ⟨.minus, rfl⟩

/-! ## Public keys -/

namespace PublicKey

theorem ofInts_cases (n r s : Int) :
    (∃ key : PublicKey, ofInts n r s = .ok key ∧ key.n = n ∧ key.r.toInt = r ∧
      key.s.toInt = s) ∨
    ∃ why, ofInts n r s = .error (.mismatch why) := by
  unfold ofInts
  split
  · rename_i hn
    split
    · exact Or.inr ⟨_, rfl⟩
    · exact Or.inr ⟨_, rfl⟩
    · rename_i σ τ hr hs
      exact Or.inl ⟨_, rfl, rfl, Selector.ofInt?_eq_some_iff.mp hr,
        Selector.ofInt?_eq_some_iff.mp hs⟩
  · exact Or.inr ⟨_, rfl⟩

/-- The selector that is cited when the parts of a public key do not match. -/
def culprit? (n r s : Int) : Option Int :=
  if 1 < n ∧ n % 2 = 1 then [r, s].find? fun v => v ≠ 1 ∧ v ≠ -1 else none

theorem not_symbol_of_ofInt?_eq_none {v : Int} (h : Selector.ofInt? v = none) :
    v ≠ 1 ∧ v ≠ -1 := by
  rw [← not_or, ← Selector.exists_toInt_eq_iff]
  rintro ⟨σ, rfl⟩
  cases h.symm.trans (PrivateKey.ofInt?_toInt σ)

theorem symbol_of_ofInt?_eq_some {v : Int} {σ : Selector} (h : Selector.ofInt? v = some σ) :
    ¬ (v ≠ 1 ∧ v ≠ -1) := by
  rw [← not_or, not_not, ← Selector.exists_toInt_eq_iff]
  exact ⟨σ, Selector.ofInt?_eq_some_iff.mp h⟩

theorem numbers_of_ofInts_error {n r s : Int} {f : Fault} (h : ofInts n r s = .error f) :
    f.numbers = (culprit? n r s).toList := by
  unfold ofInts at h
  split at h
  · rename_i hn
    rw [culprit?, if_pos hn]
    split at h
    · rename_i hr
      cases h
      simp [not_symbol_of_ofInt?_eq_none hr, Fault.numbers, Mismatch.numbers]
    · rename_i hs hr
      cases h
      cases hσ : Selector.ofInt? r with
      | none => exact absurd hσ hr
      | some σ =>
          simp [symbol_of_ofInt?_eq_some hσ, not_symbol_of_ofInt?_eq_none hs, Fault.numbers,
            Mismatch.numbers]
    · cases h
  · rename_i hn
    rw [culprit?, if_neg hn]
    cases h
    rfl

theorem culprit?_of_ok {n r s : Int} {key : PublicKey} (h : ofInts n r s = .ok key) :
    culprit? n r s = none := by
  unfold ofInts at h
  split at h
  · rename_i hn
    rw [culprit?, if_pos hn]
    split at h
    · cases h
    · cases h
    · rename_i σ τ hr hs
      simp [symbol_of_ofInt?_eq_some hr, symbol_of_ofInt?_eq_some hs]
  · cases h

end PublicKey

namespace PrivateKey

/-! ## Private keys from all their parts -/

/-- Division by `q` comes after the residue classes, so `q` is not zero by
then. -/
theorem ofPublic_cases (key : PublicKey) (p q u : Int) :
    (∃ key' : PrivateKey, ofPublic key p q u = .ok key' ∧ key'.toPublicKey = key ∧
      key'.p = p ∧ key'.q = q ∧ key'.u = u) ∨
    ∃ why, ofPublic key p q u = .error (.mismatch why) := by
  unfold ofPublic
  split_ifs with hn hpq hm hq hu
  · omega
  · exact Or.inl ⟨_, rfl, rfl, rfl, rfl, rfl⟩
  all_goals exact Or.inr ⟨_, rfl⟩

theorem ofInts_cases (n r s p q u : Int) :
    (∃ key : PrivateKey, ofInts n r s p q u = .ok key ∧ key.n = n ∧ key.r.toInt = r ∧
      key.s.toInt = s ∧ key.p = p ∧ key.q = q ∧ key.u = u) ∨
    ∃ why, ofInts n r s p q u = .error (.mismatch why) := by
  show (∃ key : PrivateKey, (PublicKey.ofInts n r s).bind _ = _ ∧ _) ∨
    ∃ why, (PublicKey.ofInts n r s).bind _ = _
  rcases PublicKey.ofInts_cases n r s with ⟨key, hkey, hn, hr, hs⟩ | ⟨why, hwhy⟩
  · rw [hkey]
    rcases ofPublic_cases key p q u with ⟨key', hkey', rfl, hparts⟩ | hwhy
    · exact Or.inl ⟨key', hkey', hn, hr, hs, hparts⟩
    · exact Or.inr hwhy
  · rw [hwhy]
    exact Or.inr ⟨why, rfl⟩

/-- **A key is made from its own parts and from nothing else.** -/
theorem ofInts_eq_ok_iff {n r s p q u : Int} {key : PrivateKey} :
    ofInts n r s p q u = .ok key ↔
      key.n = n ∧ key.r.toInt = r ∧ key.s.toInt = s ∧ key.p = p ∧ key.q = q ∧ key.u = u := by
  constructor
  · intro h
    rcases ofInts_cases n r s p q u with ⟨key', hkey', hparts⟩ | ⟨why, hwhy⟩
    · cases h.symm.trans hkey'
      exact hparts
    · cases h.symm.trans hwhy
  · rintro ⟨rfl, rfl, rfl, rfl, rfl, rfl⟩
    exact ofInts_self key

theorem kind_of_ofInts_error {n r s p q u : Int} {f : Fault}
    (h : ofInts n r s p q u = .error f) : f.kind = .keyMismatch := by
  rcases ofInts_cases n r s p q u with ⟨key, hkey, -⟩ | ⟨why, hwhy⟩
  · cases h.symm.trans hkey
  · cases h.symm.trans hwhy
    rfl

theorem numbers_of_ofPublic_error {key : PublicKey} {p q u : Int} {f : Fault}
    (h : ofPublic key p q u = .error f) : f.numbers = [] := by
  rcases ofPublic_cases key p q u with ⟨key', hkey', -⟩ | ⟨why, hwhy⟩
  · cases h.symm.trans hkey'
  · unfold ofPublic at h
    split_ifs at h <;> cases h <;> rfl

theorem numbers_of_ofInts_error {n r s p q u : Int} {f : Fault}
    (h : ofInts n r s p q u = .error f) : f.numbers = (PublicKey.culprit? n r s).toList := by
  change (PublicKey.ofInts n r s).bind _ = _ at h
  cases hkey : PublicKey.ofInts n r s with
  | error g =>
      rw [hkey] at h
      cases h
      exact PublicKey.numbers_of_ofInts_error hkey
  | ok key =>
      rw [hkey] at h
      rw [PublicKey.culprit?_of_ok hkey]
      exact numbers_of_ofPublic_error h

/-- What the factors and the selectors of a key are like. -/
structure Admissible (p q r s : Int) : Prop where
  r_symbol : r = 1 ∨ r = -1
  s_symbol : s = 1 ∨ s = -1
  three_le_p : 3 ≤ p
  three_le_q : 3 ≤ q
  p_mod_four : p % 4 = 3
  q_mod_four : q % 4 = 3

theorem admissible (key : PrivateKey) :
    Admissible key.p key.q key.r.toInt key.s.toInt where
  r_symbol := Selector.exists_toInt_eq_iff.mp ⟨key.r, rfl⟩
  s_symbol := Selector.exists_toInt_eq_iff.mp ⟨key.s, rfl⟩
  three_le_p := key.three_le_p
  three_le_q := key.three_le_q
  p_mod_four := key.p_mod_four
  q_mod_four := key.q_mod_four

theorem exists_ofInts_iff {n r s p q u : Int} :
    (∃ key, ofInts n r s p q u = .ok key) ↔
      Admissible p q r s ∧ n = p * q ∧ u * p ≡ 1 [ZMOD q] := by
  constructor
  · rintro ⟨key, hkey⟩
    obtain ⟨rfl, rfl, rfl, rfl, rfl, rfl⟩ := ofInts_eq_ok_iff.mp hkey
    exact ⟨key.admissible, key.product.symm, key.u_mul_p_modEq⟩
  · rintro ⟨h, rfl, hu⟩
    obtain ⟨σ, rfl⟩ := Selector.exists_toInt_eq_iff.mpr h.r_symbol
    obtain ⟨τ, rfl⟩ := Selector.exists_toInt_eq_iff.mpr h.s_symbol
    obtain ⟨key, hn, hσ, hτ, hp, hq, hku⟩ :=
      exists_key h.three_le_p h.three_le_q h.p_mod_four h.q_mod_four hu σ τ
    exact ⟨key, ofInts_eq_ok_iff.mpr ⟨hn, by rw [hσ], by rw [hτ], hp, hq, hku⟩⟩

theorem twentyOne_le_n (key : PrivateKey) : 21 ≤ key.n := by
  have hp := key.three_le_p
  have hq := key.three_le_q
  have hp4 := key.p_mod_four
  have hq4 := key.q_mod_four
  rw [← key.product]
  rcases lt_or_gt_of_ne key.distinct with h | h
  · calc (21 : Int) = 3 * 7 := by norm_num
      _ ≤ key.p * key.q := mul_le_mul hp (by omega) (by norm_num) key.p_pos.le
  · calc (21 : Int) = 7 * 3 := by norm_num
      _ ≤ key.p * key.q := mul_le_mul (by omega) hq (by norm_num) key.p_pos.le

/-- **Exactly which numbers make a private key.** The product and the coefficient are right, the
selectors are symbols, and both factors are 3 modulo 4 and at least 3. All other integers, of any
sign and size, are refused as mismatched, and every key that is made has positive, different and
coprime factors. A limit on digits changes the fault about a selector that it does not admit, and
no other. -/
theorem ofInts_accepts (n r s p q u : Int) :
    ofArguments (.int n) (.int r) (.int s) (.int p) (.int q) (.int u) = ofInts n r s p q u ∧
    ((∃ key, ofInts n r s p q u = .ok key) ↔
      (r = 1 ∨ r = -1) ∧ (s = 1 ∨ s = -1) ∧ 3 ≤ p ∧ 3 ≤ q ∧ p % 4 = 3 ∧ q % 4 = 3 ∧
        n = p * q ∧ u * p ≡ 1 [ZMOD q]) ∧
    (∀ f, ofInts n r s p q u = .error f → (f.raised none).kind = .keyMismatch ∧
      ∀ limit : DigitLimit, (f.raised limit).kind =
        limit.kindFor .keyMismatch (PublicKey.culprit? n r s).toList) ∧
    ∀ key, ofInts n r s p q u = .ok key →
      (key.n = n ∧ key.r.toInt = r ∧ key.s.toInt = s ∧ key.p = p ∧ key.q = q ∧ key.u = u) ∧
      0 < p ∧ 0 < q ∧ p ≠ q ∧ IsCoprime p q ∧ n % 4 = 1 ∧ 21 ≤ n := by
  refine ⟨rfl, ?_, fun f hf => ⟨?_, fun limit => ?_⟩, ?_⟩
  · rw [exists_ofInts_iff]
    constructor
    · rintro ⟨h, hn, hu⟩
      exact ⟨h.r_symbol, h.s_symbol, h.three_le_p, h.three_le_q, h.p_mod_four, h.q_mod_four,
        hn, hu⟩
    · rintro ⟨hr, hs, hp, hq, hp4, hq4, hn, hu⟩
      exact ⟨⟨hr, hs, hp, hq, hp4, hq4⟩, hn, hu⟩
  · rw [Fault.raised_none]
    exact kind_of_ofInts_error hf
  · rw [Fault.kind_raised, kind_of_ofInts_error hf, numbers_of_ofInts_error hf]
  · intro key hkey
    obtain ⟨rfl, rfl, rfl, rfl, rfl, rfl⟩ := ofInts_eq_ok_iff.mp hkey
    exact ⟨⟨rfl, rfl, rfl, rfl, rfl, rfl⟩, key.p_pos, key.q_pos, key.distinct,
      key.isCoprime_factors, key.n_mod_four, key.twentyOne_le_n⟩

/-- The selector `10 ^ 4300` does not match, and is too long to be cited in 4300 digits. -/
theorem ofInts_accepts_tooLong :
    ∃ f, ofInts 77 tooLong 1 7 11 8 = .error f ∧ (f.raised none).kind = .keyMismatch ∧
      (f.raised (some 4300)).kind = .value := by
  have hkind : DigitLimit.kindFor (some 4300) .keyMismatch
      (PublicKey.culprit? 77 tooLong 1).toList = .value := by
    decide +kernel
  have hnot : ¬ (tooLong = 1 ∨ tooLong = -1) := by decide +kernel
  obtain ⟨-, hiff, hfault, -⟩ := ofInts_accepts 77 tooLong 1 7 11 8
  cases hout : ofInts 77 tooLong 1 7 11 8 with
  | ok key => exact absurd (hiff.mp ⟨key, hout⟩).1 hnot
  | error f =>
      obtain ⟨hnone, hlimit⟩ := hfault f hout
      exact ⟨f, rfl, hnone, (hlimit _).trans hkind⟩

/-- Negative factors with a positive product are turned away like all others. -/
example : ofInts 77 1 1 (-1) (-77) (-1) = .error (.mismatch .coefficient) := by
  decide +kernel

/-! ## Private keys from their factors -/

theorem mismatch_of_deriveCoefficient_error {p q : Int} {f : Fault}
    (h : deriveCoefficient p q = .error f) :
    f = .mismatch .equalFactors ∨ f = .mismatch .noInverse := by
  unfold deriveCoefficient at h
  split at h
  · cases h
    exact Or.inl rfl
  · split at h
    · cases h
    · cases h
      exact Or.inr rfl

theorem kind_of_ofFactors_error {p q r s : Int} {f : Fault}
    (h : ofFactors p q r s = .error f) : f.kind = .keyMismatch := by
  change (deriveCoefficient p q).bind _ = _ at h
  cases hu : deriveCoefficient p q with
  | error g =>
      rw [hu] at h
      cases h
      rcases mismatch_of_deriveCoefficient_error hu with rfl | rfl <;> rfl
  | ok u =>
      rw [hu] at h
      exact kind_of_ofInts_error h

theorem exists_deriveCoefficient_iff {p q : Int} :
    (∃ u, deriveCoefficient p q = .ok u) ↔ p ≠ q ∧ 0 < q ∧ Int.gcd p q = 1 := by
  constructor
  · rintro ⟨u, hu⟩
    by_cases hpq : p = q
    · rw [deriveCoefficient, if_pos hpq] at hu
      cases hu
    by_cases hq : 0 < q
    · refine ⟨hpq, hq, ?_⟩
      by_contra hgcd
      cases hu.symm.trans (deriveCoefficient_of_gcd_ne_one hq hpq hgcd)
    · rw [deriveCoefficient, if_neg hpq, inverse] at hu
      split_ifs at hu
      omega
  · rintro ⟨hpq, hq, hgcd⟩
    obtain ⟨u, hu, -⟩ := deriveCoefficient_of_gcd_eq_one hq hpq hgcd
    exact ⟨u, hu⟩

theorem numbers_of_ofFactors_error {p q r s : Int} {f : Fault}
    (h : ofFactors p q r s = .error f) :
    f.numbers = if p ≠ q ∧ 0 < q ∧ Int.gcd p q = 1
      then (PublicKey.culprit? (p * q) r s).toList else [] := by
  change (deriveCoefficient p q).bind _ = _ at h
  cases hu : deriveCoefficient p q with
  | error g =>
      have hnone : ¬ ∃ u, deriveCoefficient p q = .ok u := by simp [hu]
      rw [hu] at h
      cases h
      rw [if_neg (exists_deriveCoefficient_iff.not.mp hnone)]
      rcases mismatch_of_deriveCoefficient_error hu with rfl | rfl <;> rfl
  | ok u =>
      rw [hu] at h
      rw [if_pos (exists_deriveCoefficient_iff.mp ⟨u, hu⟩)]
      exact numbers_of_ofInts_error h

theorem gcd_factors (key : PrivateKey) : Int.gcd key.p key.q = 1 :=
  Int.isCoprime_iff_gcd_eq_one.mp key.isCoprime_factors

theorem deriveCoefficient_factors (key : PrivateKey) (hu : 0 < key.u) (huq : key.u < key.q) :
    deriveCoefficient key.p key.q = .ok key.u := by
  obtain ⟨v, hv, hv0, hvq, hmod⟩ :=
    deriveCoefficient_of_gcd_eq_one key.q_pos key.distinct key.gcd_factors
  rcases hv0.lt_or_eq with hpos | rfl
  · rw [hv, (eq_u_iff hu huq v).mp ⟨hpos, hvq, hmod⟩]
  · rw [zero_mul] at hmod
    have := Int.le_of_dvd one_pos (Int.modEq_zero_iff_dvd.mp hmod.symm)
    have := key.three_le_q
    omega

/-- **What is made of factors alone**: the keys that have these factors and a
reduced coefficient. -/
theorem ofFactors_eq_ok_iff {p q r s : Int} {key : PrivateKey} :
    ofFactors p q r s = .ok key ↔
      ofInts (p * q) r s p q key.u = .ok key ∧ 0 < key.u ∧ key.u < q := by
  show (deriveCoefficient p q).bind _ = _ ↔ _
  constructor
  · intro h
    cases hu : deriveCoefficient p q with
    | error f =>
        rw [hu] at h
        cases h
    | ok u =>
        rw [hu] at h
        have hkey : ofInts (p * q) r s p q u = .ok key := h
        obtain ⟨-, -, -, rfl, rfl, rfl⟩ := ofInts_eq_ok_iff.mp hkey
        obtain ⟨v, hv, hv0, hvq, -⟩ :=
          deriveCoefficient_of_gcd_eq_one key.q_pos key.distinct key.gcd_factors
        cases hu.symm.trans hv
        exact ⟨hkey, hv0.lt_of_ne' key.u_ne_zero, hvq⟩
  · rintro ⟨hkey, hu, huq⟩
    obtain ⟨-, -, -, rfl, rfl, -⟩ := ofInts_eq_ok_iff.mp hkey
    rw [key.deriveCoefficient_factors hu huq]
    exact hkey

def reduced (key : PrivateKey) : PrivateKey :=
  { key with
    u := key.u % key.q
    coefficient := by
      rw [Int.fmod_eq_emod_of_nonneg _ key.q_pos.le, Int.mul_emod, Int.emod_emod_of_dvd _ dvd_rfl,
        ← Int.mul_emod, ← Int.fmod_eq_emod_of_nonneg _ key.q_pos.le]
      exact key.coefficient }

theorem reduced_u_bounds (key : PrivateKey) : 0 < key.reduced.u ∧ key.reduced.u < key.q :=
  ⟨(Int.emod_nonneg _ key.q_pos.ne').lt_of_ne' key.reduced.u_ne_zero,
    Int.emod_lt_of_pos _ key.q_pos⟩

/-- **The factors of a key make its reduced form.** -/
theorem ofFactors_self (key : PrivateKey) :
    ofFactors key.p key.q key.r.toInt key.s.toInt = .ok key.reduced := by
  refine ofFactors_eq_ok_iff.mpr ⟨ofInts_eq_ok_iff.mpr ?_, key.reduced_u_bounds⟩
  exact ⟨key.product.symm, rfl, rfl, rfl, rfl, rfl⟩

theorem exists_ofFactors_iff {p q r s : Int} :
    (∃ key, ofFactors p q r s = .ok key) ↔
      ∃ u key, ofInts (p * q) r s p q u = .ok key := by
  constructor
  · rintro ⟨key, hkey⟩
    exact ⟨key.u, key, (ofFactors_eq_ok_iff.mp hkey).1⟩
  · rintro ⟨u, key, hkey⟩
    obtain ⟨-, rfl, rfl, rfl, rfl, -⟩ := ofInts_eq_ok_iff.mp hkey
    exact ⟨key.reduced, key.ofFactors_self⟩

theorem exists_coefficient_iff {p q r s : Int} :
    (∃ u key, ofInts (p * q) r s p q u = .ok key) ↔
      Admissible p q r s ∧ Int.gcd p q = 1 := by
  constructor
  · rintro ⟨u, key, hkey⟩
    obtain ⟨-, rfl, rfl, rfl, rfl, -⟩ := ofInts_eq_ok_iff.mp hkey
    exact ⟨key.admissible, key.gcd_factors⟩
  · rintro ⟨h, hgcd⟩
    obtain ⟨u, v, huv⟩ := Int.isCoprime_iff_gcd_eq_one.mpr hgcd
    have hu : u * p ≡ 1 [ZMOD q] := by
      rw [Int.modEq_iff_dvd, ← huv]
      exact ⟨v, by ring⟩
    obtain ⟨key, hkey⟩ := exists_ofInts_iff.mpr ⟨h, rfl, hu⟩
    exact ⟨u, key, hkey⟩

/-- **The two constructors agree.** Factors make a key exactly if some coefficient completes them
to one, which is to say that they are coprime and like the factors of a key. The key is then the
one with the only coefficient in `[1, q)`, whatever goes wrong is a mismatch, and the factors of
any key make that key with its coefficient reduced. A limit on digits changes the fault about a
selector that it does not admit, where the selectors are looked at. -/
theorem ofFactors_agrees (p q r s : Int) :
    ofFactorArguments (.int p) (.int q) (.int r) (.int s) = ofFactors p q r s ∧
    ((∃ key, ofFactors p q r s = .ok key) ↔
      ∃ u key, ofInts (p * q) r s p q u = .ok key) ∧
    ((∃ key, ofFactors p q r s = .ok key) ↔
      3 ≤ p ∧ 3 ≤ q ∧ p % 4 = 3 ∧ q % 4 = 3 ∧ Int.gcd p q = 1 ∧
        (r = 1 ∨ r = -1) ∧ (s = 1 ∨ s = -1)) ∧
    (∀ key, ofFactors p q r s = .ok key →
      ofInts (p * q) r s p q key.u = .ok key ∧
      ∀ u, (1 ≤ u ∧ u < q ∧ ∃ key', ofInts (p * q) r s p q u = .ok key') ↔ u = key.u) ∧
    (∀ f, ofFactors p q r s = .error f → (f.raised none).kind = .keyMismatch ∧
      ∀ limit : DigitLimit, (f.raised limit).kind =
        limit.kindFor .keyMismatch (if p ≠ q ∧ 0 < q ∧ Int.gcd p q = 1
          then (PublicKey.culprit? (p * q) r s).toList else [])) ∧
    ∀ n u key, ofInts n r s p q u = .ok key → ofFactors p q r s = .ok key.reduced := by
  refine ⟨rfl, exists_ofFactors_iff, ?_, ?_, fun f hf => ⟨?_, fun limit => ?_⟩, ?_⟩
  · rw [exists_ofFactors_iff, exists_coefficient_iff]
    constructor
    · rintro ⟨h, hgcd⟩
      exact ⟨h.three_le_p, h.three_le_q, h.p_mod_four, h.q_mod_four, hgcd, h.r_symbol,
        h.s_symbol⟩
    · rintro ⟨hp, hq, hp4, hq4, hgcd, hr, hs⟩
      exact ⟨⟨hr, hs, hp, hq, hp4, hq4⟩, hgcd⟩
  · intro key hkey
    obtain ⟨hints, hu, huq⟩ := ofFactors_eq_ok_iff.mp hkey
    refine ⟨hints, fun u => ?_⟩
    obtain ⟨-, rfl, rfl, rfl, rfl, -⟩ := ofInts_eq_ok_iff.mp hints
    rw [← eq_u_iff hu huq u]
    refine and_congr_right fun _ => and_congr_right fun _ => ?_
    rw [exists_ofInts_iff]
    exact ⟨fun h => h.2.2, fun h => ⟨key.admissible, rfl, h⟩⟩
  · rw [Fault.raised_none]
    exact kind_of_ofFactors_error hf
  · rw [Fault.kind_raised, kind_of_ofFactors_error hf, numbers_of_ofFactors_error hf]
  · intro n u key hkey
    obtain ⟨-, rfl, rfl, rfl, rfl, -⟩ := ofInts_eq_ok_iff.mp hkey
    exact key.ofFactors_self

/-- The factors 7 and 11 make no key with the selector `10 ^ 4300`. -/
theorem ofFactors_agrees_tooLong :
    ∃ f, ofFactors 7 11 tooLong 1 = .error f ∧ (f.raised none).kind = .keyMismatch ∧
      (f.raised (some 4300)).kind = .value := by
  have hkind : DigitLimit.kindFor (some 4300) .keyMismatch
      (if (7 : Int) ≠ 11 ∧ (0 : Int) < 11 ∧ Int.gcd 7 11 = 1
        then (PublicKey.culprit? (7 * 11) tooLong 1).toList else []) = .value := by
    decide +kernel
  have hnot : ¬ (tooLong = 1 ∨ tooLong = -1) := by decide +kernel
  obtain ⟨-, -, hiff, -, hfault, -⟩ := ofFactors_agrees 7 11 tooLong 1
  cases hout : ofFactors 7 11 tooLong 1 with
  | ok key => exact absurd (hiff.mp ⟨key, hout⟩).2.2.2.2.2.1 hnot
  | error f =>
      obtain ⟨hnone, hlimit⟩ := hfault f hout
      exact ⟨f, rfl, hnone, (hlimit _).trans hkind⟩

end PrivateKey

end Blum
