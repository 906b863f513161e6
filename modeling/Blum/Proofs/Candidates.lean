import Mathlib
import Blum.Key.Generate
import Blum.Proofs.Draws

/-!
# The shape of prime candidates

A candidate has exactly its size in bits, with the two top bits and the two
low bits set. The low bits make it 3 modulo 4. The top bits make it at least
three quarters of the next power of two, so the product of two candidates
falls short of no bit: `9 * 2 ^ (k - 4)` exceeds `2 ^ (k - 1)`.
-/

namespace Blum

/-! ## Bit lengths -/

theorem bitLength_le_iff {n k : Nat} : bitLength n ≤ k ↔ n < 2 ^ k := by
  unfold bitLength
  split_ifs with hn
  · exact iff_of_true (Nat.zero_le k) (hn ▸ Nat.two_pow_pos k)
  · exact Nat.log2_lt hn

theorem bitLength_eq_iff {n k : Nat} (hk : 0 < k) :
    bitLength n = k ↔ 2 ^ (k - 1) ≤ n ∧ n < 2 ^ k := by
  rw [← not_lt, ← bitLength_le_iff, ← bitLength_le_iff]
  omega

theorem lt_two_pow_bitLength (n : Nat) : n < 2 ^ bitLength n :=
  bitLength_le_iff.mp le_rfl

namespace Generate

/-- The size of a candidate and the bits that are set in it. -/
structure HasShape (bits c : Nat) : Prop where
  length : bitLength c = bits
  top : c.testBit (bits - 1)
  second : c.testBit (bits - 2)
  bit_one : c.testBit 1
  bit_zero : c.testBit 0

namespace HasShape

variable {bits c : Nat} (h : HasShape bits c)
include h

theorem lt (hbits : 2 ≤ bits) : c < 2 ^ bits :=
  ((bitLength_eq_iff (by omega)).mp h.length).2

theorem mod_four : c % 4 = 3 := by
  have h0 := h.bit_zero
  have h1 := h.bit_one
  rw [Nat.testBit_zero, decide_eq_true_eq] at h0
  rw [Nat.testBit_succ, Nat.testBit_zero, decide_eq_true_eq] at h1
  omega

theorem three_mul_le (hbits : 2 ≤ bits) : 3 * 2 ^ (bits - 2) ≤ c := by
  rw [← Nat.le_div_iff_mul_le (Nat.two_pow_pos _)]
  have h0 : (c / 2 ^ (bits - 2)).testBit 0 := by
    rw [Nat.testBit_div_two_pow, Nat.zero_add]
    exact h.second
  have h1 : (c / 2 ^ (bits - 2)).testBit 1 := by
    rw [Nat.testBit_div_two_pow, show 1 + (bits - 2) = bits - 1 by omega]
    exact h.top
  rw [Nat.testBit_zero, decide_eq_true_eq] at h0
  rw [Nat.testBit_succ, Nat.testBit_zero, decide_eq_true_eq] at h1
  generalize c / 2 ^ (bits - 2) = t at h0 h1 ⊢
  omega

end HasShape

/-- **The product of two candidates has as many bits as both together.** -/
theorem bitLength_mul {a b p q : Nat} (ha : 2 ≤ a) (hb : 2 ≤ b) (hp : HasShape a p)
    (hq : HasShape b q) : bitLength (p * q) = a + b := by
  rw [bitLength_eq_iff (by omega)]
  constructor
  -- three quarters twice are nine sixteenths, and eight would do
  · calc 2 ^ (a + b - 1) = 8 * (2 ^ (a - 2) * 2 ^ (b - 2)) := by
          rw [← pow_add, show 8 = 2 ^ 3 by rfl, ← pow_add]
          congr 1
          omega
      _ ≤ 9 * (2 ^ (a - 2) * 2 ^ (b - 2)) := Nat.mul_le_mul_right _ (by decide)
      _ = 3 * 2 ^ (a - 2) * (3 * 2 ^ (b - 2)) := by ring
      _ ≤ p * q := Nat.mul_le_mul (hp.three_mul_le ha) (hq.three_mul_le hb)
  · rw [pow_add]
    exact Nat.mul_lt_mul'' (hp.lt ha) (hq.lt hb)

theorem mask_lt {bits : Nat} (hbits : 2 ≤ bits) : mask bits < 2 ^ bits := by
  have hpow : 2 ^ bits = 4 * 2 ^ (bits - 2) := by
    rw [show 4 = 2 ^ 2 by rfl, ← pow_add]
    congr 1
    omega
  have hpos := Nat.two_pow_pos (bits - 2)
  refine Nat.or_lt_two_pow ?_ ?_
  · rw [Nat.shiftLeft_eq]
    omega
  · omega

theorem yields_candidate {bits : Nat} (hbits : 2 ≤ bits) :
    (candidate bits).Yields (HasShape bits) := by
  refine (Draw.yields_exactInteger (by omega)).bind fun v hv => Draw.yields_pure ?_
  obtain ⟨hlt, htop⟩ := hv
  have hbit : (v ||| mask bits).testBit (bits - 1) := by
    rw [Nat.testBit_or, htop, Bool.true_or]
  refine ⟨?_, hbit, ?_, ?_, ?_⟩
  · rw [bitLength_eq_iff (by omega)]
    exact ⟨Nat.ge_two_pow_of_testBit hbit, Nat.or_lt_two_pow hlt (mask_lt hbits)⟩
  · simp [mask, Nat.testBit_or, Nat.testBit_shiftLeft]
  · have h3 : Nat.testBit 3 1 := by decide
    simp [mask, Nat.testBit_or, h3]
  · simp [mask]

theorem hasShape_of_candidate {bits c : Nat} (hbits : 2 ≤ bits) {s s' : Source}
    (h : candidate bits s = (.ok c, s')) : HasShape bits c := by
  rcases yields_candidate hbits s with ⟨d, s₁, hs, -, hd⟩ | ⟨s₁, hs, -⟩
  · cases h.symm.trans hs
    exact hd
  · cases h.symm.trans hs

end Generate

end Blum
