import Mathlib
import Blum.Arith.Power.Lemmas
import Blum.Proofs.TrialDivision

/-!
# Primes pass the primality test

Modulo a prime the only roots of 1 are 1 and -1. Fermat's theorem ends the
squarings of a round at 1, so what is squared just before the first 1 can only
be -1: a prime passes the round of every base. The table recognises primes as
well, so the test never turns a prime away, whatever bases the source yields
and however many of them are asked for.
-/

namespace Blum.Prime

/-! ## One round -/

theorem oddPart_mul_two_pow (m : Nat) : oddPart m * 2 ^ twos m = m := by
  rw [oddPart, Nat.shiftRight_eq_div_pow]
  refine Nat.div_mul_cancel ?_
  induction m using twos.induct with
  | case1 => simp
  | case2 m hm hpar ih =>
      rw [twos, if_neg hm, if_pos hpar, pow_succ]
      conv_rhs => rw [← Nat.div_mul_cancel (Nat.dvd_of_mod_eq_zero hpar)]
      exact Nat.mul_dvd_mul_right ih 2
  | case3 m hm hpar =>
      rw [twos, if_neg hm, if_neg hpar, pow_zero]
      exact one_dvd m

section Round

variable {n : Nat} (hn : n.Prime)
include hn

theorem eq_one_or_eq_sub_one {z : Nat} (hz : z < n) (hroot : z * z % n = 1) :
    z = 1 ∨ z = n - 1 := by
  have hpos : 0 < z := by
    rcases Nat.eq_zero_or_pos z with rfl | h
    · rw [Nat.zero_mul, Nat.zero_mod] at hroot
      cases hroot
    · exact h
  have hdvd : n ∣ (z + 1) * (z - 1) := by
    rw [← Nat.mul_self_sub_mul_self_eq, Nat.mul_one,
      ← Nat.modEq_iff_dvd' (Nat.mul_pos hpos hpos), Nat.ModEq, hroot]
    exact Nat.mod_eq_of_lt hn.one_lt
  rcases hn.dvd_mul.mp hdvd with h | h
  · right
    have := Nat.le_of_dvd (Nat.succ_pos z) h
    omega
  · left
    have := Nat.eq_zero_of_dvd_of_lt h (by omega)
    omega

/-- Squarings that would arrive at 1 meet -1 on the way. The induction is on the
squarings that are left. -/
theorem meetsMinusOne_of_pow_eq_one {k z : Nat} (hz : z < n) (hone : z ≠ 1)
    (hminus : z ≠ n - 1) (hpow : z ^ 2 ^ k % n = 1) : meetsMinusOne n k z = true := by
  induction k generalizing z with
  | zero =>
      rw [pow_zero, pow_one, Nat.mod_eq_of_lt hz] at hpow
      exact absurd hpow hone
  | succ k ih =>
      have hsquare : z * z % n ≠ 1 := by
        intro h
        rcases eq_one_or_eq_sub_one hn hz h with h1 | h1
        · exact hone h1
        · exact hminus h1
      have hrest : (z * z % n) ^ 2 ^ k % n = 1 := by
        rw [← Nat.pow_mod, ← Nat.pow_two, ← Nat.pow_mul, ← Nat.pow_succ']
        exact hpow
      simp only [meetsMinusOne, hsquare, if_false]
      by_cases hmeets : z * z % n = n - 1
      · rw [if_pos hmeets]
      · rw [if_neg hmeets]
        exact ih (Nat.mod_lt _ hn.pos) hsquare hmeets hrest

/-- **A prime passes every round.** -/
theorem passes_of_prime {a : Nat} (hpos : 0 < a) (hlt : a < n) : passes n a = true := by
  have hcoprime : Nat.Coprime a n := (Nat.coprime_of_lt_prime hpos.ne' hlt hn).symm
  have hfermat : (a ^ oddPart (n - 1) % n) ^ 2 ^ twos (n - 1) % n = 1 := by
    rw [← Nat.pow_mod, ← Nat.pow_mul, oddPart_mul_two_pow, ← Nat.totient_prime hn,
      Nat.ModEq.pow_totient hcoprime]
    exact Nat.mod_eq_of_lt hn.one_lt
  rw [passes, powMod_eq, Bool.or_eq_true, Bool.or_eq_true, beq_iff_eq, beq_iff_eq]
  by_cases hone : a ^ oddPart (n - 1) % n = 1
  · exact Or.inl (Or.inl hone)
  by_cases hminus : a ^ oddPart (n - 1) % n = n - 1
  · exact Or.inl (Or.inr hminus)
  exact Or.inr (meetsMinusOne_of_pow_eq_one hn (Nat.mod_lt _ hn.pos) hone hminus hfermat)

end Round

/-! ## The test -/

open Draw

theorem yields_runRounds_of_prime {n : Nat} (hn : n.Prime) (h3 : 3 ≤ n) (k : Nat)
    (used : List Nat) : Yields (runRounds n k used) (· = true) := by
  induction k generalizing used with
  | zero => exact yields_pure rfl
  | succ k ih =>
      refine (yields_choose _ _ _).bind fun a ha => ?_
      rw [if_pos (passes_of_prime hn (by omega) (by omega))]
      exact ih _

/-- **Primes are not taken for composite.** Whatever bases the source yields, an
answer to a prime is yes. -/
theorem yields_isPrime_of_prime {n k : Nat} {rate : Argument} (h : rounds rate = .ok k)
    (hn : n.Prime) : Yields (isPrime n rate) (· = true) := by
  rw [isPrime]
  split
  · rename_i hsmall
    refine yields_pure ?_
    rw [decide_eq_true_eq]
    rcases hsmall with h3 | heven
    · have := hn.two_le
      omega
    · exact hn.eq_two_or_odd.resolve_right (by omega)
  · split
    · rename_i answer hdecided
      refine yields_pure ?_
      exact (prime_iff_of_trialDivision (fun p hp => (mem_table_iff.mp hp).1) hdecided).mp hn
    · refine (yields_lift (P := fun _ => True) h trivial).bind fun k' _ => ?_
      exact yields_runRounds_of_prime hn (by omega) _ _

end Blum.Prime
