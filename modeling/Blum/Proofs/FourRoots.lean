import Mathlib
import Blum.Proofs.UnitSquares

/-!
# The roots of a square

The four choices of selectors name four different roots of every square, since
they differ in a symbol. If the factors are prime there is no other root that
is a unit: the symbols of a unit are 1 or -1, so some selectors name it.
-/

namespace Blum

instance : Fintype Selector where
  elems := {.plus, .minus}
  complete σ := by cases σ <;> simp

namespace PrivateKey

variable {key : PrivateKey}

/-- The root of `y` that a pair of selectors names. -/
def rootWith (key : PrivateKey) (y : Int) (σ : Selector × Selector) : Int :=
  (key.withSelectors σ.1 σ.2).combinedRoot y

theorem squares_withSelectors (key : PrivateKey) (r s : Selector) :
    (key.withSelectors r s).squares = key.squares := rfl

theorem toInt_injective : Function.Injective Selector.toInt := by
  decide

theorem rootWith_mem_roots {y : Int} (hy : y ∈ key.squares) (σ : Selector × Selector) :
    key.rootWith y σ ∈ (key.withSelectors σ.1 σ.2).roots := by
  rw [← key.squares_withSelectors σ.1 σ.2] at hy
  exact combinedRoot_mem_roots hy

theorem rootWith_sq {y : Int} (hy : y ∈ key.squares) (σ : Selector × Selector) :
    key.rootWith y σ ^ 2 % key.n = y := by
  rw [← key.squares_withSelectors σ.1 σ.2] at hy
  exact combinedRoot_sq hy

theorem selectors_unique {x : Int} {σ τ : Selector × Selector}
    (hσ : x ∈ (key.withSelectors σ.1 σ.2).roots)
    (hτ : x ∈ (key.withSelectors τ.1 τ.2).roots) : σ = τ := by
  obtain ⟨-, -, hσp, hσq⟩ := hσ
  obtain ⟨-, -, hτp, hτq⟩ := hτ
  have hr := Except.ok.inj (hσp.symm.trans hτp)
  have hs := Except.ok.inj (hσq.symm.trans hτq)
  exact Prod.ext (toInt_injective hr) (toInt_injective hs)

theorem rootWith_injective {y : Int} (hy : y ∈ key.squares) :
    Function.Injective (key.rootWith y) := by
  intro σ τ h
  refine selectors_unique (rootWith_mem_roots hy σ) ?_
  rw [h]
  exact rootWith_mem_roots hy τ

/-! ## Prime factors -/

theorem exists_legendreSym_eq_toInt {p x : Int} [Fact p.toNat.Prime] (hp : 0 ≤ p)
    (hx : IsCoprime x p) : ∃ σ : Selector, legendreSym p.toNat x = σ.toInt := by
  have hunit : IsUnit (x : ZMod p.toNat) := by
    rw [ZMod.coe_int_isUnit_iff_isCoprime, Int.toNat_of_nonneg hp]
    exact hx.symm
  rcases legendreSym.eq_one_or_neg_one _ hunit.ne_zero with h | h
  · exact ⟨.plus, h⟩
  · exact ⟨.minus, h⟩

section Prime

variable [hp : Fact key.p.toNat.Prime] [hq : Fact key.q.toNat.Prime]

theorem mem_roots_withSelectors_iff {x : Int} {r s : Selector} :
    x ∈ (key.withSelectors r s).roots ↔ 0 ≤ x ∧ x < key.n ∧
      legendreSym key.p.toNat x = r.toInt ∧ legendreSym key.q.toNat x = s.toInt := by
  have : Fact (key.withSelectors r s).p.toNat.Prime := hp
  have : Fact (key.withSelectors r s).q.toNat.Prime := hq
  exact mem_roots_iff_legendreSym

theorem exists_mem_roots {z : Int} (h₀ : 0 ≤ z) (hn : z < key.n)
    (hz : Int.gcd z key.n = 1) :
    ∃ σ : Selector × Selector, z ∈ (key.withSelectors σ.1 σ.2).roots := by
  have hz' : IsCoprime z (key.p * key.q) :=
    key.product ▸ Int.isCoprime_iff_gcd_eq_one.mpr hz
  obtain ⟨r, hr⟩ := exists_legendreSym_eq_toInt key.p_pos.le hz'.of_mul_right_left
  obtain ⟨s, hs⟩ := exists_legendreSym_eq_toInt key.q_pos.le hz'.of_mul_right_right
  exact ⟨(r, s), mem_roots_withSelectors_iff.mpr ⟨h₀, hn, hr, hs⟩⟩

/-- **There are four roots.** For prime factors the units that square to `y` are
those that selectors name. -/
theorem exists_rootWith_iff {y z : Int} (hy : y ∈ key.squares) :
    (∃ σ, key.rootWith y σ = z) ↔
      0 ≤ z ∧ z < key.n ∧ Int.gcd z key.n = 1 ∧ z ^ 2 % key.n = y := by
  constructor
  · rintro ⟨σ, rfl⟩
    have hσ := rootWith_mem_roots hy σ
    have hgcd := gcd_of_mem_roots hσ
    exact ⟨hσ.1, hσ.2.1, hgcd, rootWith_sq hy σ⟩
  · rintro ⟨h₀, hn, hz, rfl⟩
    obtain ⟨σ, hσ⟩ := exists_mem_roots h₀ hn hz
    exact ⟨σ, combinedRoot_of_sq hσ⟩

end Prime

end PrivateKey

end Blum
