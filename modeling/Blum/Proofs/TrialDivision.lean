import Mathlib
import Blum.Proofs.Draws

/-!
# Trial division

The table holds the primes up to its bound and nothing else. What it decides,
it decides correctly, and what it leaves undecided has no prime factor up to
the bound. Below the square of the next number such a number is prime, so the
rounds that follow cannot spoil the answer, whatever their bases are.
-/

namespace Blum.Prime

/-! ## The table -/

/-- Numbers below `324 * 324` that are not prime have a divisor below 324. -/
theorem isSmallPrime_iff {n : Nat} (hn : n < 324 * 324) :
    isSmallPrime n = true ↔ n.Prime := by
  rw [isSmallPrime, Bool.and_eq_true, decide_eq_true_eq, List.all_eq_true]
  constructor
  · rintro ⟨h2, hall⟩
    by_contra hprime
    have hlt := (Nat.not_prime_iff_minFac_lt h2).mp hprime
    have hsq := Nat.minFac_sq_le_self (by omega) hprime
    have hpos := (Nat.minFac_prime (by omega : n ≠ 1)).two_le
    have hsmall : n.minFac < 324 := by nlinarith
    have hdiv := hall n.minFac (List.mem_range'_1.mpr ⟨hpos, hsmall⟩)
    rw [Bool.or_eq_true, decide_eq_true_eq, bne_iff_ne] at hdiv
    rcases hdiv with h | h
    · omega
    · exact h (Nat.mod_eq_zero_of_dvd n.minFac_dvd)
  · intro hprime
    refine ⟨hprime.two_le, ?_⟩
    intro d hd
    have hd2 := (List.mem_range'_1.mp hd).1
    rw [Bool.or_eq_true, decide_eq_true_eq, bne_iff_ne]
    by_contra h
    rw [not_or, not_le, ne_eq, not_not] at h
    rcases (Nat.dvd_prime hprime).mp (Nat.dvd_of_mod_eq_zero h.2) with hd1 | hdn <;> omega

theorem mem_table_iff {p : Nat} : p ∈ table ↔ p.Prime ∧ p ≤ tableBound := by
  rw [table, List.mem_filter, List.mem_range, Nat.lt_succ_iff, and_comm]
  refine and_congr_left fun hp => isSmallPrime_iff ?_
  rw [tableBound] at hp
  omega

/-! ## What division by a list of primes tells -/

section TrialDivision

variable {n : Nat} {ps : List Nat}

/-- A decision is the right one: the prime that decides is `n` or divides it
properly. -/
theorem prime_iff_of_trialDivision (hps : ∀ p ∈ ps, p.Prime) {b : Bool}
    (h : trialDivision n ps = some b) : n.Prime ↔ b = true := by
  induction ps with
  | nil => cases h
  | cons p ps ih =>
      have hp := hps p List.mem_cons_self
      rw [trialDivision] at h
      split_ifs at h with heq hdiv
      · cases h
        subst heq
        exact iff_of_true hp rfl
      · cases h
        refine iff_of_false ?_ Bool.false_ne_true
        intro hn
        rcases (Nat.dvd_prime hn).mp (Nat.dvd_of_mod_eq_zero hdiv) with h1 | h1
        · exact hp.one_lt.ne' h1
        · exact heq h1.symm
      · exact ih (fun q hq => hps q (List.mem_cons_of_mem p hq)) h

theorem trialDivision_eq_none_iff : trialDivision n ps = none ↔ ∀ p ∈ ps, ¬ p ∣ n := by
  induction ps with
  | nil => simp [trialDivision]
  | cons p ps ih =>
      rw [trialDivision, List.forall_mem_cons, ← ih]
      split_ifs with heq hdiv
      · exact iff_of_false id fun h => h.1 (dvd_of_eq heq.symm)
      · exact iff_of_false id fun h => h.1 (Nat.dvd_of_mod_eq_zero hdiv)
      · exact (and_iff_right fun hdvd => hdiv (Nat.mod_eq_zero_of_dvd hdvd)).symm

end TrialDivision

/-- Below the square of the number after the bound, what the table leaves
undecided is prime. -/
theorem prime_of_trialDivision_table {n : Nat} (h2 : 2 ≤ n)
    (hn : n < (tableBound + 1) ^ 2) (h : trialDivision n table = none) : n.Prime := by
  by_contra hprime
  have hfac := Nat.minFac_prime (by omega : n ≠ 1)
  have hsq := Nat.minFac_sq_le_self (by omega) hprime
  have hle : n.minFac < tableBound + 1 := lt_of_pow_lt_pow_left₀ 2 (by omega) (by omega)
  exact trialDivision_eq_none_iff.mp h n.minFac (mem_table_iff.mpr ⟨hfac, by omega⟩)
    n.minFac_dvd

theorem trialDivision_table_of_prime {n : Nat} (hn : n.Prime) (hbound : tableBound < n) :
    trialDivision n table = none := by
  refine trialDivision_eq_none_iff.mpr fun p hp hdvd => ?_
  obtain ⟨hprime, hle⟩ := mem_table_iff.mp hp
  obtain rfl := (Nat.prime_dvd_prime_iff_eq hprime hn).mp hdvd
  omega

/-! ## The primality test -/

open Draw in
/-- **Small numbers are not taken for primes.** Below the square of the number
after the bound, what passes the test is prime, whatever bases the source
yields. -/
theorem yields_isPrime_of_lt {n k : Nat} {rate : Argument} (h : rounds rate = .ok k)
    (hn : n < (tableBound + 1) ^ 2) :
    Yields (isPrime n rate) fun answer => answer = true → n.Prime := by
  rw [isPrime]
  split
  · refine yields_pure ?_
    intro h2
    rw [decide_eq_true_eq] at h2
    rw [h2]
    exact Nat.prime_two
  · rename_i h3
    split
    · rename_i answer hdecided
      refine yields_pure ?_
      exact (prime_iff_of_trialDivision (fun p hp => (mem_table_iff.mp hp).1) hdecided).mpr
    · rename_i hundecided
      have hprime := prime_of_trialDivision_table (by omega) hn hundecided
      refine (yields_lift (P := fun _ => True) h trivial).bind fun k' _ => ?_
      exact (yields_runRounds _ _ _).mono fun _ _ _ => hprime

end Blum.Prime
