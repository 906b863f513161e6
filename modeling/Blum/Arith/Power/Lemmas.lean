import Blum.Arith.Power
import Mathlib.Algebra.Group.Nat.Even

/-! # Laws of modular powers

Repeated squaring computes what its name says, for every base, exponent and modulus. -/

namespace Blum

/-- **Repeated squaring computes the power.** -/
theorem powMod_eq (base exponent modulus : Nat) :
    powMod base exponent modulus = base ^ exponent % modulus := by
  induction exponent using Nat.strongRecOn generalizing base with
  | ind e ih =>
    rw [powMod]
    by_cases he : e = 0
    · simp [he]
    · have hrec : powMod (base * base % modulus) (e / 2) modulus
          = base ^ (2 * (e / 2)) % modulus := by
        rw [ih (e / 2) (by omega), ← Nat.pow_mod, ← Nat.pow_two, ← Nat.pow_mul]
      simp only [he, if_false, hrec]
      by_cases hpar : e % 2 = 0
      · rw [if_pos hpar]
        congr 2
        omega
      · rw [if_neg hpar, Nat.mod_mul_mod, ← Nat.pow_succ]
        congr 2
        omega

end Blum
