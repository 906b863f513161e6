import Mathlib
import Blum.Proofs.Inversion

/-!
# Inversion and the squares of units

The domain of inversion in terms of the integers modulo `n` alone. Whatever
can be inverted is the square of a unit. For prime factors the converse holds
as well, and the root that inversion returns is the only one whose Legendre
symbols are the selectors. Both symbols are those of mathematics here; that
the power test computes them is `eulerSymbol_eq_legendreSym`.
-/

namespace Blum

/-- The squares of units modulo `n`. -/
def unitSquares (n : Int) : Set Int :=
  {y | ∃ z : Int, Int.gcd z n = 1 ∧ y = z ^ 2 % n}

namespace PrivateKey

variable (key : PrivateKey)

def withSelectors (r s : Selector) : PrivateKey :=
  { key with toPublicKey := { key.toPublicKey with r, s } }

/-- The units below the modulus with given Legendre symbols. -/
def unitsWithSymbols [Fact key.p.toNat.Prime] [Fact key.q.toNat.Prime]
    (r s : Selector) : Set Int :=
  {x | 0 ≤ x ∧ x < key.n ∧ Int.gcd x key.n = 1 ∧
    legendreSym key.p.toNat x = r.toInt ∧ legendreSym key.q.toNat x = s.toInt}

variable {key}

/-! ## Squares and squares of units -/

/-- Every number with two symbols 1 is the square of a unit, namely of its
combined root. -/
theorem squares_subset_unitSquares : key.squares ⊆ unitSquares key.n := by
  intro y hy
  exact ⟨key.combinedRoot y, gcd_of_mem_roots (combinedRoot_mem_roots hy),
    (combinedRoot_sq hy).symm⟩

section Prime

variable [Fact key.p.toNat.Prime] [Fact key.q.toNat.Prime]

theorem squares_eq_unitSquares : key.squares = unitSquares key.n := by
  refine Set.Subset.antisymm squares_subset_unitSquares ?_
  rintro y ⟨z, hz, rfl⟩
  have hz' : IsCoprime z (key.p * key.q) :=
    key.product ▸ Int.isCoprime_iff_gcd_eq_one.mpr hz
  have hn := key.one_lt
  refine mem_squares_iff.mpr
    ⟨Int.emod_nonneg _ (by omega), Int.emod_lt_of_pos _ (by omega), ?_, ?_⟩
  · exact ((emod_n_modEq_p _).pow _).trans
      (sq_pow_symbolExponent_of_isCoprime key.three_le_p hz'.of_mul_right_left)
  · exact ((emod_n_modEq_q _).pow _).trans
      (sq_pow_symbolExponent_of_isCoprime key.three_le_q hz'.of_mul_right_right)

theorem mem_roots_iff_legendreSym {x : Int} : x ∈ key.roots ↔ 0 ≤ x ∧ x < key.n ∧
    legendreSym key.p.toNat x = key.r.toInt ∧
    legendreSym key.q.toNat x = key.s.toInt := by
  rw [roots, Set.mem_ofPred_eq, eulerSymbol_eq_legendreSym key.three_le_p,
    eulerSymbol_eq_legendreSym key.three_le_q, Except.ok.injEq, Except.ok.injEq]

/-- The roots of a key are the units with the Legendre symbols it selects. -/
theorem roots_eq_unitsWithSymbols : key.roots = key.unitsWithSymbols key.r key.s := by
  ext x
  constructor
  · intro hx
    exact ⟨hx.1, hx.2.1, gcd_of_mem_roots hx, (mem_roots_iff_legendreSym.mp hx).2.2⟩
  · rintro ⟨h₀, hn, -, hsym⟩
    exact mem_roots_iff_legendreSym.mpr ⟨h₀, hn, hsym⟩

end Prime

end PrivateKey

namespace Engine

open PrivateKey

variable {key : PrivateKey}

theorem invert_ok_iff {y x : Int} :
    key.engine.invert y = .ok x ↔ y ∈ key.squares ∧ key.combinedRoot y = x := by
  by_cases hy : y ∈ key.squares
  · rw [invert_of_mem_squares hy, Except.ok.injEq]
    exact (and_iff_right hy).symm
  · obtain ⟨f, hf, -⟩ := invert_of_not_mem_squares hy
    rw [hf]
    exact iff_of_false (by simp) fun h => hy h.1

theorem exists_key_of_invert {e : Engine} {y x : Int} (h : e.invert y = .ok x) :
    ∃ key : PrivateKey, e = key.engine ∧ y ∈ key.squares ∧ key.combinedRoot y = x := by
  rcases e with ⟨key | key⟩
  · cases h
  · exact ⟨key, rfl, invert_ok_iff.mp h⟩

theorem apply_of_invert_ok {e : Engine} {y x : Int} (h : e.invert y = .ok x) :
    e.apply x = .ok y := by
  obtain ⟨key, rfl, hy, rfl⟩ := exists_key_of_invert h
  obtain ⟨h₀, hn, -⟩ := combinedRoot_mem_roots hy
  rw [apply_of_lt h₀ hn, combinedRoot_sq hy]

theorem applyThenInvert_of_invert_ok {e : Engine} {y x : Int} (h : e.invert y = .ok x) :
    e.applyThenInvert x = .ok x := by
  rw [applyThenInvert, apply_of_invert_ok h]
  exact h

/-- The returned root is the only number below the modulus that squares to `y`
and carries the selected symbols. -/
theorem root_unique {y x x' : Int} (hy : y ∈ key.squares) (hx : key.combinedRoot y = x) :
    (x' ∈ key.roots ∧ x' ^ 2 ≡ y [ZMOD key.n]) ↔ x' = x := by
  subst hx
  constructor
  · rintro ⟨hx', hsq⟩
    have hyx : x' ^ 2 % key.n = y :=
      hsq.eq.trans (Int.emod_eq_of_lt hy.1 hy.2.1)
    rw [← hyx, combinedRoot_of_sq hx']
  · rintro rfl
    refine ⟨combinedRoot_mem_roots hy, ?_⟩
    calc key.combinedRoot y ^ 2
        ≡ key.combinedRoot y ^ 2 % key.n [ZMOD key.n] := (Int.mod_modEq _ _).symm
      _ = y := combinedRoot_sq hy

/-- **The domain of inversion.** Only squares of units are inverted. If the
factors are prime, all of them are; the root returned is the only one with the
selected Legendre symbols; and for each choice of selectors the forward map is
a bijection from the units with these symbols onto the squares of units. -/
theorem invert_domain (key : PrivateKey) :
    (∀ y x, key.engine.invert y = .ok x → y ∈ unitSquares key.n) ∧
    ∀ [Fact key.p.toNat.Prime] [Fact key.q.toNat.Prime],
      (∀ y, (∃ x, key.engine.invert y = .ok x) ↔
        y ∈ unitSquares key.n ∧ 0 < y ∧ y < key.n) ∧
      (∀ y x, key.engine.invert y = .ok x → ∀ x',
        (0 ≤ x' ∧ x' < key.n ∧ x' ^ 2 ≡ y [ZMOD key.n] ∧
          legendreSym key.p.toNat x' = key.r.toInt ∧
          legendreSym key.q.toNat x' = key.s.toInt) ↔ x' = x) ∧
      ∀ r s : Selector, ∃ e : key.unitsWithSymbols r s ≃ unitSquares key.n,
        (∀ x : key.unitsWithSymbols r s,
          (key.withSelectors r s).engine.apply x = .ok (e x : Int)) ∧
        ∀ y : unitSquares key.n,
          (key.withSelectors r s).engine.invert y = .ok (e.symm y : Int) := by
  refine ⟨fun y x h => squares_subset_unitSquares (invert_ok_iff.mp h).1, ?_⟩
  intro hp hq
  refine ⟨fun y => ?_, fun y x h x' => ?_, fun r s => ?_⟩
  · rw [← squares_eq_unitSquares]
    constructor
    · rintro ⟨x, hx⟩
      obtain ⟨hy, -⟩ := invert_ok_iff.mp hx
      obtain ⟨h₀, hn, hsp, hsq⟩ := mem_squares_iff.mp hy
      exact ⟨hy, pos_of_isCoprime_n h₀ (isCoprime_n (σ := .plus) (τ := .plus) hsp hsq), hn⟩
    · rintro ⟨hy, -, -⟩
      exact ⟨_, invert_of_mem_squares hy⟩
  · obtain ⟨hy, hx⟩ := invert_ok_iff.mp h
    rw [← root_unique hy hx, mem_roots_iff_legendreSym]
    tauto
  · -- the key with the other selectors has the same factors, so they are prime
    let key' := key.withSelectors r s
    have : Fact key'.p.toNat.Prime := hp
    have : Fact key'.q.toNat.Prime := hq
    have hroots : key'.roots = key.unitsWithSymbols r s := roots_eq_unitsWithSymbols
    have hsquares : key'.squares = unitSquares key.n := squares_eq_unitSquares
    exact ⟨(Equiv.setCongr hroots).symm.trans
        (key'.rootsEquivSquares.trans (Equiv.setCongr hsquares)),
      fun x => apply_eq_rootsEquivSquares ((Equiv.setCongr hroots).symm x),
      fun y => invert_eq_rootsEquivSquares_symm ((Equiv.setCongr hsquares).symm y)⟩

theorem invert_domain_seven_eleven :
    Nat.Prime 7 ∧ Nat.Prime 11 ∧ 4 ∈ unitSquares 77 ∧
      ∃ x, sevenEleven.engine.invert 4 = .ok x := by
  have h7 : Fact sevenEleven.p.toNat.Prime := ⟨by decide⟩
  have h11 : Fact sevenEleven.q.toNat.Prime := ⟨by decide⟩
  have h4 : 4 ∈ unitSquares 77 := ⟨2, by decide, by decide⟩
  exact ⟨h7.out, h11.out, h4,
    ((invert_domain sevenEleven).2.1 4).mpr ⟨h4, by decide, by decide⟩⟩

end Engine

end Blum
