import Mathlib
import Blum.Engine
import Blum.Proofs.DigitLimits
import Blum.Proofs.EulerSymbol
import Blum.Proofs.Factors

/-!
# The inversion law

Squaring and inversion undo each other between the numbers that carry the
symbols of the selectors and the numbers both of whose symbols are 1. What is
known about the factors is what the checks on a key say: they are at least 3,
3 modulo 4 and coprime. That they are prime is not used.
-/

namespace Blum

namespace PrivateKey

variable (key : PrivateKey)

/-! ## The two sides of the inversion -/

def engine : Engine := ⟨.priv key⟩

/-- The numbers below the modulus that carry the symbols of the selectors. -/
def roots : Set Int :=
  {x | 0 ≤ x ∧ x < key.n ∧
    eulerSymbol x key.p = .ok key.r.toInt ∧ eulerSymbol x key.q = .ok key.s.toInt}

/-- The numbers below the modulus both of whose symbols are 1. -/
def squares : Set Int :=
  {y | 0 ≤ y ∧ y < key.n ∧
    eulerSymbol y key.p = .ok 1 ∧ eulerSymbol y key.q = .ok 1}

/-- The number whose residues are the selected roots of `y`. -/
def combinedRoot (y : Int) : Int :=
  garner (key.r.pick (y ^ rootExponent key.p % key.p) key.p)
    (key.s.pick (y ^ rootExponent key.q % key.q) key.q) key.p key.q key.u

variable {key}

theorem mem_roots_iff {x : Int} : x ∈ key.roots ↔ 0 ≤ x ∧ x < key.n ∧
    x ^ symbolExponent key.p ≡ key.r.toInt [ZMOD key.p] ∧
    x ^ symbolExponent key.q ≡ key.s.toInt [ZMOD key.q] := by
  rw [roots, Set.mem_ofPred_eq, eulerSymbol_eq_toInt_iff key.three_le_p,
    eulerSymbol_eq_toInt_iff key.three_le_q]

theorem mem_squares_iff {y : Int} : y ∈ key.squares ↔ 0 ≤ y ∧ y < key.n ∧
    y ^ symbolExponent key.p ≡ 1 [ZMOD key.p] ∧
    y ^ symbolExponent key.q ≡ 1 [ZMOD key.q] := by
  rw [squares, Set.mem_ofPred_eq, eulerSymbol_eq_one_iff key.three_le_p,
    eulerSymbol_eq_one_iff key.three_le_q]

theorem not_symbols_of_not_mem_squares {y : Int} (hy : y ∉ key.squares) (h₀ : 0 ≤ y)
    (hn : y < key.n) : ¬ (y ^ symbolExponent key.p ≡ 1 [ZMOD key.p] ∧
      y ^ symbolExponent key.q ≡ 1 [ZMOD key.q]) := by
  intro h
  exact hy (mem_squares_iff.mpr ⟨h₀, hn, h⟩)

theorem isCoprime_n {x : Int} {σ τ : Selector}
    (hp : x ^ symbolExponent key.p ≡ σ.toInt [ZMOD key.p])
    (hq : x ^ symbolExponent key.q ≡ τ.toInt [ZMOD key.q]) : IsCoprime x key.n := by
  rw [← key.product]
  exact (isCoprime_of_pow_symbolExponent key.three_le_p hp).mul_right
    (isCoprime_of_pow_symbolExponent key.three_le_q hq)

theorem pos_of_isCoprime_n {x : Int} (h₀ : 0 ≤ x) (hx : IsCoprime x key.n) : 0 < x := by
  have hn := key.one_lt
  rcases h₀.lt_or_eq with h | rfl
  · exact h
  · rw [isCoprime_zero_left, Int.isUnit_iff] at hx
    omega

theorem isCoprime_of_mem_squares {y : Int} (hy : y ∈ key.squares) : IsCoprime y key.n := by
  obtain ⟨-, -, hp, hq⟩ := mem_squares_iff.mp hy
  exact isCoprime_n (σ := .plus) (τ := .plus) hp hq

theorem pos_of_mem_squares {y : Int} (hy : y ∈ key.squares) : 0 < y :=
  pos_of_isCoprime_n hy.1 (isCoprime_of_mem_squares hy)

theorem isCoprime_of_mem_roots {x : Int} (hx : x ∈ key.roots) : IsCoprime x key.n := by
  obtain ⟨-, -, hp, hq⟩ := mem_roots_iff.mp hx
  exact isCoprime_n hp hq

theorem gcd_of_mem_roots {x : Int} (hx : x ∈ key.roots) : Int.gcd x key.n = 1 :=
  Int.isCoprime_iff_gcd_eq_one.mp (isCoprime_of_mem_roots hx)

theorem pos_of_mem_roots {x : Int} (hx : x ∈ key.roots) : 0 < x :=
  pos_of_isCoprime_n hx.1 (isCoprime_of_mem_roots hx)

/-! ## The combined root -/

theorem combinedRoot_modEq_p (key : PrivateKey) (y : Int) :
    key.combinedRoot y ≡ key.r.toInt * y ^ rootExponent key.p [ZMOD key.p] := by
  calc key.combinedRoot y
      ≡ key.r.pick (y ^ rootExponent key.p % key.p) key.p [ZMOD key.p] :=
        garner_modEq_left ..
    _ ≡ key.r.toInt * (y ^ rootExponent key.p % key.p) [ZMOD key.p] :=
        key.r.pick_modEq ..
    _ ≡ key.r.toInt * y ^ rootExponent key.p [ZMOD key.p] :=
        (Int.mod_modEq _ _).mul_left _

theorem combinedRoot_modEq_q (key : PrivateKey) (y : Int) :
    key.combinedRoot y ≡ key.s.toInt * y ^ rootExponent key.q [ZMOD key.q] := by
  calc key.combinedRoot y
      ≡ key.s.pick (y ^ rootExponent key.q % key.q) key.q [ZMOD key.q] :=
        garner_modEq_right key.u_mul_p_modEq ..
    _ ≡ key.s.toInt * (y ^ rootExponent key.q % key.q) [ZMOD key.q] :=
        key.s.pick_modEq ..
    _ ≡ key.s.toInt * y ^ rootExponent key.q [ZMOD key.q] :=
        (Int.mod_modEq _ _).mul_left _

theorem combinedRoot_mem_roots {y : Int} (hy : y ∈ key.squares) :
    key.combinedRoot y ∈ key.roots := by
  obtain ⟨-, -, hp, hq⟩ := mem_squares_iff.mp hy
  have hp3 := key.three_le_p
  have hq3 := key.three_le_q
  have hrp := pow_symbolExponent_of_root hp3 key.p_mod_four hp key.r
  have hrq := pow_symbolExponent_of_root hq3 key.q_mod_four hq key.s
  -- the root modulo `p` is not zero, so its negative stays below `p` as well
  have hroot := pow_rootExponent_emod_pos hp3 key.p_mod_four hp
  obtain ⟨hlo, hhi⟩ := Selector.pick_bounds (σ := key.r) hroot
    (Int.emod_lt_of_pos _ key.p_pos)
  refine mem_roots_iff.mpr ⟨?_, ?_, ?_, ?_⟩
  · exact garner_nonneg key.p_pos.le key.q_pos hlo.le _ _
  · rw [← key.product]
    exact garner_lt key.q_pos hlo.le hhi _ _
  · exact ((key.combinedRoot_modEq_p y).pow _).trans hrp
  · exact ((key.combinedRoot_modEq_q y).pow _).trans hrq

theorem combinedRoot_sq {y : Int} (hy : y ∈ key.squares) :
    key.combinedRoot y ^ 2 % key.n = y := by
  obtain ⟨h₀, hn, hp, hq⟩ := mem_squares_iff.mp hy
  have hpos := key.one_lt
  refine eq_of_modEq (Int.emod_nonneg _ (by omega)) (Int.emod_lt_of_pos _ (by omega))
    h₀ hn ?_ ?_
  · calc key.combinedRoot y ^ 2 % key.n
        ≡ key.combinedRoot y ^ 2 [ZMOD key.p] := emod_n_modEq_p _
      _ ≡ (key.r.toInt * y ^ rootExponent key.p) ^ 2 [ZMOD key.p] :=
          (key.combinedRoot_modEq_p y).pow 2
      _ ≡ y [ZMOD key.p] := sq_of_root key.three_le_p key.p_mod_four hp key.r
  · calc key.combinedRoot y ^ 2 % key.n
        ≡ key.combinedRoot y ^ 2 [ZMOD key.q] := emod_n_modEq_q _
      _ ≡ (key.s.toInt * y ^ rootExponent key.q) ^ 2 [ZMOD key.q] :=
          (key.combinedRoot_modEq_q y).pow 2
      _ ≡ y [ZMOD key.q] := sq_of_root key.three_le_q key.q_mod_four hq key.s

theorem sq_mem_squares {x : Int} (hx : x ∈ key.roots) : x ^ 2 % key.n ∈ key.squares := by
  obtain ⟨-, -, hp, hq⟩ := mem_roots_iff.mp hx
  have hpos := key.one_lt
  refine mem_squares_iff.mpr
    ⟨Int.emod_nonneg _ (by omega), Int.emod_lt_of_pos _ (by omega), ?_, ?_⟩
  · exact ((emod_n_modEq_p _).pow _).trans (sq_pow_symbolExponent hp)
  · exact ((emod_n_modEq_q _).pow _).trans (sq_pow_symbolExponent hq)

theorem combinedRoot_of_sq {x : Int} (hx : x ∈ key.roots) :
    key.combinedRoot (x ^ 2 % key.n) = x := by
  obtain ⟨h₀, hn, hp, hq⟩ := mem_roots_iff.mp hx
  obtain ⟨h₀', hn', -, -⟩ := mem_roots_iff.mp (combinedRoot_mem_roots (sq_mem_squares hx))
  refine eq_of_modEq h₀' hn' h₀ hn ?_ ?_
  · calc key.combinedRoot (x ^ 2 % key.n)
        ≡ key.r.toInt * (x ^ 2 % key.n) ^ rootExponent key.p [ZMOD key.p] :=
          key.combinedRoot_modEq_p _
      _ ≡ key.r.toInt * (x ^ 2) ^ rootExponent key.p [ZMOD key.p] :=
          ((emod_n_modEq_p _).pow _).mul_left _
      _ ≡ x [ZMOD key.p] := root_of_sq key.three_le_p key.p_mod_four hp
  · calc key.combinedRoot (x ^ 2 % key.n)
        ≡ key.s.toInt * (x ^ 2 % key.n) ^ rootExponent key.q [ZMOD key.q] :=
          key.combinedRoot_modEq_q _
      _ ≡ key.s.toInt * (x ^ 2) ^ rootExponent key.q [ZMOD key.q] :=
          ((emod_n_modEq_q _).pow _).mul_left _
      _ ≡ x [ZMOD key.q] := root_of_sq key.three_le_q key.q_mod_four hq

def rootsEquivSquares (key : PrivateKey) : key.roots ≃ key.squares where
  toFun x := ⟨(x : Int) ^ 2 % key.n, sq_mem_squares x.2⟩
  invFun y := ⟨key.combinedRoot y, combinedRoot_mem_roots y.2⟩
  left_inv x := Subtype.ext (combinedRoot_of_sq x.2)
  right_inv y := Subtype.ext (combinedRoot_sq y.2)

end PrivateKey

namespace Engine

open PrivateKey

variable {key : PrivateKey} {y : Int}

/-! ## The selected root -/

/-- **What inversion computes.** The two symbols decide whether there is a
root. No step of the computation fails. -/
theorem selectedRoot_eq (key : PrivateKey) (y : Int) :
    selectedRoot key y = .ok (if y ^ symbolExponent key.p ≡ 1 [ZMOD key.p] ∧
      y ^ symbolExponent key.q ≡ 1 [ZMOD key.q] then some (key.combinedRoot y)
      else none) := by
  have hp := key.p_pos
  have hq := key.q_pos
  have h1p := eulerSymbol_eq_one_iff key.three_le_p y
  have h1q := eulerSymbol_eq_one_iff key.three_le_q y
  obtain ⟨s, hs⟩ : ∃ s, eulerSymbol y key.p = .ok s := ⟨_, eulerSymbol_of_pos hp y⟩
  obtain ⟨t, ht⟩ : ∃ t, eulerSymbol y key.q = .ok t := ⟨_, eulerSymbol_of_pos hq y⟩
  rw [hs, Except.ok.injEq] at h1p
  rw [ht, Except.ok.injEq] at h1q
  simp only [← h1p, ← h1q, selectedRoot, remainder_of_pos hp, remainder_of_pos hq,
    eulerSymbol_emod hp, eulerSymbol_emod hq, blumRoot_emod hp, blumRoot_emod hq,
    recombine_of_pos hq, hs, ht, bind, Except.bind, pure, Except.pure]
  by_cases hs1 : s = 1
  · by_cases ht1 : t = 1
    · have hp0 :=
        emod_ne_zero_of_pow_symbolExponent (σ := .plus) key.three_le_p (h1p.mp hs1)
      have hq0 :=
        emod_ne_zero_of_pow_symbolExponent (σ := .plus) key.three_le_q (h1q.mp ht1)
      simp [hs1, ht1, hp0, hq0, combinedRoot]
    · simp [hs1, ht1]
  · simp [hs1]

/-! ## The two maps -/

theorem modulus_pos (e : Engine) : 0 < e.modulus := e.publicKey.n_pos

theorem apply_eq (e : Engine) (x : Int) :
    e.apply x = if 0 ≤ x ∧ x < e.modulus then .ok (x ^ 2 % e.modulus)
      else .error (.notBelow x e.modulus) := by
  unfold apply
  split_ifs
  · exact power_of_pos e.modulus_pos (by omega) x
  · rfl

theorem apply_of_lt {x : Int} (h₀ : 0 ≤ x) (hn : x < key.n) :
    key.engine.apply x = .ok (x ^ 2 % key.n) := by
  rw [apply_eq]
  exact if_pos ⟨h₀, hn⟩

/-- The inverse map looks at the range first and at the symbols next. -/
theorem invert_eq (key : PrivateKey) (y : Int) :
    key.engine.invert y =
      if 0 < y ∧ y < key.n then
        if y ^ symbolExponent key.p ≡ 1 [ZMOD key.p] ∧
          y ^ symbolExponent key.q ≡ 1 [ZMOD key.q] then .ok (key.combinedRoot y)
        else .error (.nonResidue y)
      else .error (.notBetween y key.n) := by
  by_cases hrange : 0 < y ∧ y < key.n
  · rw [if_pos hrange]
    simp only [invert, engine, privateKey, Key.private?, selectedRoot_eq, hrange,
      and_self, not_true_eq_false, if_false, bind, Except.bind, pure, Except.pure]
    split_ifs <;> rfl
  · rw [if_neg hrange]
    simp only [invert, engine, privateKey, Key.private?, hrange, bind, Except.bind]
    rfl

theorem invert_of_mem_squares {y : Int} (hy : y ∈ key.squares) :
    key.engine.invert y = .ok (key.combinedRoot y) := by
  obtain ⟨-, hn, hp, hq⟩ := mem_squares_iff.mp hy
  rw [invert_eq, if_pos ⟨pos_of_mem_squares hy, hn⟩, if_pos ⟨hp, hq⟩]

/-! The two maps follow the correspondence. -/

theorem apply_eq_rootsEquivSquares (x : key.roots) :
    key.engine.apply x = .ok (key.rootsEquivSquares x : Int) :=
  apply_of_lt x.2.1 x.2.2.1

theorem invert_eq_rootsEquivSquares_symm (y : key.squares) :
    key.engine.invert y = .ok (key.rootsEquivSquares.symm y : Int) :=
  invert_of_mem_squares y.2

theorem invert_eq_error_of_not_mem_squares (hy : y ∉ key.squares) :
    key.engine.invert y =
      .error (if 0 < y ∧ y < key.n then .nonResidue y else .notBetween y key.n) := by
  rw [invert_eq]
  by_cases hrange : 0 < y ∧ y < key.n
  · rw [if_pos hrange, if_pos hrange,
      if_neg (not_symbols_of_not_mem_squares hy hrange.1.le hrange.2)]
  · rw [if_neg hrange, if_neg hrange]

theorem invert_of_not_mem_squares {y : Int} (hy : y ∉ key.squares) :
    FailsWith (key.engine.invert y) .invalidInput := by
  refine .of_eq (invert_eq_error_of_not_mem_squares hy) ?_
  split_ifs <;> rfl

/-- The text about an operand cites it, and the modulus too if it is out of range. -/
theorem raised_invert_of_not_mem_squares {y : Int} (hy : y ∉ key.squares) (limit : DigitLimit) :
    FailsWith (limit.raised (key.engine.invert y)) (limit.kindFor .invalidInput
      (if 0 < y ∧ y < key.n then [y] else [y, key.n])) := by
  have hfails : FailsWith (limit.raised (key.engine.invert y)) _ :=
    failsWith_raised (invert_eq_error_of_not_mem_squares hy)
  split_ifs at hfails ⊢
  · exact hfails
  · exact hfails

/-- **The inversion law.** For every key, whether its factors are prime or
not, the forward map takes roots to squares, the inverse map takes squares to
roots, each undoes the other, and nothing but a square can be inverted. Any other
number is an invalid input. A caller is told so for each of them if digits are not
limited, and otherwise for those that the limit admits. -/
theorem apply_invert_bijective (key : PrivateKey) :
    (∀ x ∈ key.roots, ∃ y ∈ key.squares,
      key.engine.apply x = .ok y ∧ key.engine.invert y = .ok x) ∧
    (∀ y ∈ key.squares, ∃ x ∈ key.roots,
      key.engine.invert y = .ok x ∧ 0 < x ∧ x < key.n ∧ Int.gcd x key.n = 1 ∧
        key.engine.apply x = .ok y) ∧
    (∀ y ∉ key.squares,
      FailsWith (DigitLimit.raised none (key.engine.invert y)) .invalidInput ∧
      ∀ limit : DigitLimit, FailsWith (limit.raised (key.engine.invert y))
        (limit.kindFor .invalidInput (if 0 < y ∧ y < key.n then [y] else [y, key.n]))) ∧
    ∃ e : key.roots ≃ key.squares,
      (∀ x : key.roots, key.engine.apply x = .ok (e x : Int)) ∧
      ∀ y : key.squares, key.engine.invert y = .ok (e.symm y : Int) := by
  refine ⟨fun x hx => ?_, fun y hy => ?_, fun y hy => ?_, ?_⟩
  · have hy := sq_mem_squares hx
    refine ⟨_, hy, apply_of_lt hx.1 hx.2.1, ?_⟩
    rw [invert_of_mem_squares hy, combinedRoot_of_sq hx]
  · have hx := combinedRoot_mem_roots hy
    obtain ⟨h₀, hn, hp, hq⟩ := mem_roots_iff.mp hx
    have hunit := isCoprime_n hp hq
    refine ⟨_, hx, invert_of_mem_squares hy, pos_of_isCoprime_n h₀ hunit, hn,
      Int.isCoprime_iff_gcd_eq_one.mp hunit, ?_⟩
    rw [apply_of_lt h₀ hn, combinedRoot_sq hy]
  · have hraised := raised_invert_of_not_mem_squares hy
    refine ⟨?_, hraised⟩
    rw [← DigitLimit.kindFor_none .invalidInput]
    exact hraised none
  · exact ⟨key.rootsEquivSquares, apply_eq_rootsEquivSquares,
      invert_eq_rootsEquivSquares_symm⟩

def sevenEleven : PrivateKey where
  n := 77
  r := .minus
  s := .plus
  one_lt := by decide
  odd := by decide
  p := 7
  q := 11
  u := 8
  product := by decide
  distinct := by decide
  p_mod_four := by decide
  q_mod_four := by decide
  coefficient := by decide

/-- The number `10 ^ 4300` is out of range, and with 4300 digits at most nothing is said of it. -/
theorem apply_invert_bijective_tooLong :
    FailsWith (DigitLimit.raised none (sevenEleven.engine.invert tooLong)) .invalidInput ∧
      FailsWith (DigitLimit.raised (some 4300) (sevenEleven.engine.invert tooLong)) .value := by
  have hout : tooLong ∉ sevenEleven.squares := by
    intro h
    exact absurd h.2.1 (by decide +kernel)
  obtain ⟨hnone, hlimit⟩ := (apply_invert_bijective sevenEleven).2.2.1 tooLong hout
  refine ⟨hnone, ?_⟩
  have hkind : DigitLimit.kindFor (some 4300) .invalidInput
      (if 0 < tooLong ∧ tooLong < sevenEleven.n then [tooLong] else [tooLong, 77]) = .value := by
    decide +kernel
  rw [← hkind]
  exact hlimit (some 4300)

end Engine

end Blum
