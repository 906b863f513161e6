import Mathlib
import Blum.Proofs.FourRoots
import Blum.Proofs.Membership

/-!
# Four engines over one factorization

The selectors of a key do not matter for what its engine can invert, only for
the root that it returns. Two selectors that differ modulo one factor name
roots that are negatives of each other modulo that factor and equal modulo the
other one, so the difference of the roots has exactly the other factor in
common with the modulus: whoever sees both answers knows the factors. Selectors
that differ twice name negatives, and these tell nothing.

Nothing of this needs prime factors. For prime factors there is no fifth root.
-/

namespace Blum

namespace Selector

def opposite : Selector → Selector
  | .plus => .minus
  | .minus => .plus

@[simp]
theorem toInt_opposite (σ : Selector) : σ.opposite.toInt = -σ.toInt := by
  cases σ <;> rfl

end Selector

theorem isCoprime_sub_of_modEq_neg {m a b : Int} (hm : m % 2 = 1) (ha : IsCoprime a m)
    (hab : b ≡ -a [ZMOD m]) : IsCoprime (a - b) m := by
  have h2 : IsCoprime 2 m := by
    refine ⟨-(m / 2), 1, ?_⟩
    omega
  obtain ⟨k, hk⟩ := hab.dvd
  have hsub : a - b = 2 * a + m * k := by
    rw [← hk]
    ring
  rw [hsub]
  exact (h2.mul_left ha).add_mul_left_left k

namespace PrivateKey

variable {key : PrivateKey} {y : Int}

/-! ## The roots modulo each factor -/

theorem rootWith_modEq_p (key : PrivateKey) (y : Int) (σ : Selector × Selector) :
    key.rootWith y σ ≡ σ.1.toInt * y ^ rootExponent key.p [ZMOD key.p] :=
  (key.withSelectors σ.1 σ.2).combinedRoot_modEq_p y

theorem rootWith_modEq_q (key : PrivateKey) (y : Int) (σ : Selector × Selector) :
    key.rootWith y σ ≡ σ.2.toInt * y ^ rootExponent key.q [ZMOD key.q] :=
  (key.withSelectors σ.1 σ.2).combinedRoot_modEq_q y

theorem rootWith_opposite_modEq_p (key : PrivateKey) (y : Int) (r s s' : Selector) :
    key.rootWith y (r.opposite, s') ≡ -key.rootWith y (r, s) [ZMOD key.p] := by
  calc key.rootWith y (r.opposite, s')
      ≡ r.opposite.toInt * y ^ rootExponent key.p [ZMOD key.p] := key.rootWith_modEq_p y _
    _ = -(r.toInt * y ^ rootExponent key.p) := by rw [Selector.toInt_opposite, neg_mul]
    _ ≡ -key.rootWith y (r, s) [ZMOD key.p] := (key.rootWith_modEq_p y (r, s)).symm.neg

theorem rootWith_opposite_modEq_q (key : PrivateKey) (y : Int) (r r' s : Selector) :
    key.rootWith y (r', s.opposite) ≡ -key.rootWith y (r, s) [ZMOD key.q] := by
  calc key.rootWith y (r', s.opposite)
      ≡ s.opposite.toInt * y ^ rootExponent key.q [ZMOD key.q] := key.rootWith_modEq_q y _
    _ = -(s.toInt * y ^ rootExponent key.q) := by rw [Selector.toInt_opposite, neg_mul]
    _ ≡ -key.rootWith y (r, s) [ZMOD key.q] := (key.rootWith_modEq_q y (r, s)).symm.neg

/-! ## What two roots tell about the factors -/

theorem isCoprime_rootWith (hy : y ∈ key.squares) (σ : Selector × Selector) :
    IsCoprime (key.rootWith y σ) (key.p * key.q) := by
  have hunit := isCoprime_of_mem_roots (rootWith_mem_roots hy σ)
  rw [key.product]
  exact hunit

theorem rootWith_pos (hy : y ∈ key.squares) (σ : Selector × Selector) :
    0 < key.rootWith y σ :=
  pos_of_mem_roots (rootWith_mem_roots hy σ)

theorem rootWith_lt (hy : y ∈ key.squares) (σ : Selector × Selector) :
    key.rootWith y σ < key.n :=
  (rootWith_mem_roots hy σ).2.1

theorem gcd_sub_p (hy : y ∈ key.squares) (r s s' : Selector) :
    Int.gcd (key.rootWith y (r, s) - key.rootWith y (r.opposite, s')) key.p = 1 := by
  have h4 := key.p_mod_four
  rw [← Int.isCoprime_iff_gcd_eq_one]
  exact isCoprime_sub_of_modEq_neg (by omega) (isCoprime_rootWith hy _).of_mul_right_left
    (key.rootWith_opposite_modEq_p y r s s')

theorem gcd_sub_q (hy : y ∈ key.squares) (r r' s : Selector) :
    Int.gcd (key.rootWith y (r, s) - key.rootWith y (r', s.opposite)) key.q = 1 := by
  have h4 := key.q_mod_four
  rw [← Int.isCoprime_iff_gcd_eq_one]
  exact isCoprime_sub_of_modEq_neg (by omega) (isCoprime_rootWith hy _).of_mul_right_right
    (key.rootWith_opposite_modEq_q y r r' s)

/-- **Two roots reveal a factor** if their selectors differ modulo the other
factor only. -/
theorem gcd_sub_n_of_opposite_left (hy : y ∈ key.squares) (r s : Selector) :
    (Int.gcd (key.rootWith y (r, s) - key.rootWith y (r.opposite, s)) key.n : Int) =
      key.q := by
  have hdvd : key.q ∣ key.rootWith y (r, s) - key.rootWith y (r.opposite, s) :=
    ((key.rootWith_modEq_q y (r.opposite, s)).trans
      (key.rootWith_modEq_q y (r, s)).symm).dvd
  rw [← key.product, Int.gcd_mul_right_right_of_gcd_eq_one (gcd_sub_p hy r s s),
    Int.gcd_eq_right_iff_dvd key.q_pos.le |>.mpr hdvd]

theorem gcd_sub_n_of_opposite_right (hy : y ∈ key.squares) (r s : Selector) :
    (Int.gcd (key.rootWith y (r, s) - key.rootWith y (r, s.opposite)) key.n : Int) =
      key.p := by
  have hdvd : key.p ∣ key.rootWith y (r, s) - key.rootWith y (r, s.opposite) :=
    ((key.rootWith_modEq_p y (r, s.opposite)).trans
      (key.rootWith_modEq_p y (r, s)).symm).dvd
  rw [← key.product, mul_comm, Int.gcd_mul_right_right_of_gcd_eq_one (gcd_sub_q hy r r s),
    Int.gcd_eq_right_iff_dvd key.p_pos.le |>.mpr hdvd]

theorem rootWith_opposite (hy : y ∈ key.squares) (r s : Selector) :
    key.rootWith y (r.opposite, s.opposite) = key.n - key.rootWith y (r, s) := by
  have hlo := rootWith_pos hy (r, s)
  have hhi := rootWith_lt hy (r, s)
  refine eq_of_modEq (rootWith_pos hy _).le (rootWith_lt hy _) (by omega) (by omega) ?_ ?_
  · exact (key.rootWith_opposite_modEq_p y r s _).trans (n_sub_modEq_p _).symm
  · exact (key.rootWith_opposite_modEq_q y r _ s).trans (n_sub_modEq_q _).symm

/-! ## No fifth root -/

theorem isCoprime_of_sq_emod (hy : y ∈ key.squares) {z : Int} (hz : z ^ 2 % key.n = y) :
    IsCoprime z key.n := by
  have hunit := isCoprime_of_mem_squares hy
  rw [← hz] at hunit
  have hsq : IsCoprime (z ^ 2) key.n := by
    rw [← Int.emod_add_mul_ediv (z ^ 2) key.n]
    exact hunit.add_mul_left_left _
  exact (IsCoprime.pow_left_iff two_pos).mp hsq

end PrivateKey

namespace Engine

open PrivateKey

variable {key : PrivateKey} {y : Int}

/-! ## The four engines -/

def withSelectors (key : PrivateKey) (σ : Selector × Selector) : Engine :=
  (key.withSelectors σ.1 σ.2).engine

theorem invert_withSelectors (hy : y ∈ key.squares) (σ : Selector × Selector) :
    (withSelectors key σ).invert y = .ok (key.rootWith y σ) := by
  rw [← key.squares_withSelectors σ.1 σ.2] at hy
  exact invert_of_mem_squares hy

open Classical in
theorem check_withSelectors (key : PrivateKey) (σ : Selector × Selector) (x : Int) :
    (withSelectors key σ).check x = .ok (if x ∈ key.squares then .valid else .notValid) := by
  rw [← key.squares_withSelectors σ.1 σ.2]
  split_ifs with hx
  · exact check_of_mem_squares hx
  · exact check_of_not_mem_squares hx

theorem mem_squares_of_check {σ : Selector × Selector}
    (h : (withSelectors key σ).check y = .ok .valid) : y ∈ key.squares := by
  rw [← key.squares_withSelectors σ.1 σ.2]
  exact check_eq_valid_iff.mp h

/-- For prime factors the forward map takes nothing but the four roots to `y`. -/
theorem apply_eq_ok_iff_rootWith [Fact key.p.toNat.Prime] [Fact key.q.toNat.Prime]
    (hy : y ∈ key.squares) (σ : Selector × Selector) (z : Int) :
    (withSelectors key σ).apply z = .ok y ↔ ∃ τ, key.rootWith y τ = z := by
  rw [exists_rootWith_iff hy, apply_eq]
  show (if 0 ≤ z ∧ z < key.n then _ else _) = _ ↔ _
  split_ifs with hrange
  · rw [Except.ok.injEq]
    constructor
    · intro hz
      have hunit := isCoprime_of_sq_emod hy hz
      exact ⟨hrange.1, hrange.2, Int.isCoprime_iff_gcd_eq_one.mp hunit, hz⟩
    · rintro ⟨-, -, -, hz⟩
      exact hz
  · refine iff_of_false (by simp) ?_
    rintro ⟨h₀, hn, -⟩
    exact hrange ⟨h₀, hn⟩

/-- **Four engines over one factorization.** They accept the same numbers. Of a
number that they accept they return four different roots. Opposite engines
return negatives of each other; engines that differ modulo one factor only
return roots whose difference has the other factor in common with the modulus.
If the factors are prime, the forward map takes nothing else to that number. -/
theorem withSelectors_agree (key : PrivateKey) :
    (∀ σ τ x, (withSelectors key σ).check x = (withSelectors key τ).check x) ∧
    ∀ y τ, (withSelectors key τ).check y = .ok .valid →
      ∃ x : Selector × Selector → Int,
        (∀ σ, (withSelectors key σ).invert y = .ok (x σ)) ∧
        Function.Injective x ∧
        (∀ r s, x (r.opposite, s.opposite) = key.n - x (r, s)) ∧
        (∀ r s, (Int.gcd (x (r, s) - x (r.opposite, s)) key.n : Int) = key.q) ∧
        (∀ r s, (Int.gcd (x (r, s) - x (r, s.opposite)) key.n : Int) = key.p) ∧
        (∀ r s, Int.gcd (x (r, s) - x (r.opposite, s.opposite)) key.n = 1) ∧
        (key.p.toNat.Prime → key.q.toNat.Prime →
          ∀ σ z, (withSelectors key σ).apply z = .ok y ↔ ∃ σ', x σ' = z) := by
  refine ⟨fun σ τ x => ?_, fun y τ hcheck => ?_⟩
  · rw [check_withSelectors, check_withSelectors]
  · have hy := mem_squares_of_check hcheck
    refine ⟨key.rootWith y, invert_withSelectors hy, rootWith_injective hy,
      rootWith_opposite hy, gcd_sub_n_of_opposite_left hy, gcd_sub_n_of_opposite_right hy,
      ?_, ?_⟩
    · intro r s
      rw [← key.product, Int.gcd_mul_right_right_of_gcd_eq_one (gcd_sub_p hy r s _)]
      exact gcd_sub_q hy r _ s
    · intro hp hq σ z
      have : Fact key.p.toNat.Prime := ⟨hp⟩
      have : Fact key.q.toNat.Prime := ⟨hq⟩
      exact apply_eq_ok_iff_rootWith hy σ z

theorem withSelectors_agree_seven_eleven :
    (withSelectors sevenEleven (.plus, .plus)).check 4 = .ok .valid ∧
      Nat.Prime 7 ∧ Nat.Prime 11 ∧ ∃ x : Selector × Selector → Int,
        (∀ σ, (withSelectors sevenEleven σ).invert 4 = .ok (x σ)) ∧
        (Int.gcd (x (.plus, .plus) - x (.minus, .plus)) 77 : Int) = 11 ∧
        ∀ z, (withSelectors sevenEleven (.plus, .plus)).apply z = .ok 4 ↔
          ∃ σ, x σ = z := by
  have hcheck : (withSelectors sevenEleven (.plus, .plus)).check 4 = .ok .valid := by
    decide +kernel
  have h7 : Nat.Prime 7 := by decide
  have h11 : Nat.Prime 11 := by decide
  obtain ⟨x, hinvert, -, -, hgcd, -, -, hall⟩ :=
    (withSelectors_agree sevenEleven).2 4 (.plus, .plus) hcheck
  exact ⟨hcheck, h7, h11, x, hinvert, hgcd .plus .plus, hall h7 h11 (.plus, .plus)⟩

end Engine

end Blum
