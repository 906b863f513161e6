import Mathlib
import Blum.Proofs.FourEngines

/-!
# Inversion of products

Squares of units can be multiplied, and so can their roots. The symbols of a
product are the products of the symbols, so a product of selected roots is
itself a selected root, of a key whose selectors are the products. Three engines
over the same factors are involved, and nothing else of their keys matters: the
coefficients may differ, and the factors need not be prime.

Whoever knows the roots of two numbers therefore knows one of their product.
With both selectors 1 all three engines are the same.
-/

namespace Blum

namespace Selector

def mul : Selector → Selector → Selector
  | .plus, τ => τ
  | .minus, τ => τ.opposite

instance : Mul Selector := ⟨mul⟩

@[simp]
theorem toInt_mul (σ τ : Selector) : (σ * τ).toInt = σ.toInt * τ.toInt := by
  cases σ <;> cases τ <;> rfl

end Selector

theorem mul_pow_symbolExponent {p a b : Int} {σ τ : Selector}
    (ha : a ^ symbolExponent p ≡ σ.toInt [ZMOD p])
    (hb : b ^ symbolExponent p ≡ τ.toInt [ZMOD p]) :
    (a * b) ^ symbolExponent p ≡ (σ * τ).toInt [ZMOD p] := by
  rw [mul_pow, Selector.toInt_mul]
  exact ha.mul hb

theorem sq_mul_emod (a b n : Int) :
    (a * b % n) ^ 2 % n = (a ^ 2 % n) * (b ^ 2 % n) % n := by
  calc (a * b % n) ^ 2
      ≡ (a * b) ^ 2 [ZMOD n] := (Int.mod_modEq _ _).pow 2
    _ = a ^ 2 * b ^ 2 := mul_pow a b 2
    _ ≡ (a ^ 2 % n) * (b ^ 2 % n) [ZMOD n] :=
        ((Int.mod_modEq _ _).mul (Int.mod_modEq _ _)).symm

namespace PrivateKey

/-- The key has the factors of two others, and its selectors are the products of theirs. Its
coefficient may be any. -/
structure IsProduct (k₁ k₂ key : PrivateKey) : Prop where
  p_left : k₁.p = key.p
  q_left : k₁.q = key.q
  p_right : k₂.p = key.p
  q_right : k₂.q = key.q
  r : key.r = k₁.r * k₂.r
  s : key.s = k₁.s * k₂.s

variable {k₁ k₂ key : PrivateKey}

theorem isProduct_withSelectors (hp : k₁.p = k₂.p) (hq : k₁.q = k₂.q) :
    IsProduct k₁ k₂ (k₁.withSelectors (k₁.r * k₂.r) (k₁.s * k₂.s)) :=
  ⟨rfl, rfl, hp.symm, hq.symm, rfl, rfl⟩

theorem n_eq_of_factors (hp : k₁.p = key.p) (hq : k₁.q = key.q) : k₁.n = key.n := by
  rw [← k₁.product, ← key.product, hp, hq]

theorem IsProduct.mul_mem_roots (h : IsProduct k₁ k₂ key) {x₁ x₂ : Int}
    (h₁ : x₁ ∈ k₁.roots) (h₂ : x₂ ∈ k₂.roots) : x₁ * x₂ % key.n ∈ key.roots := by
  rcases h with ⟨hp₁, hq₁, hp₂, hq₂, hr, hs⟩
  obtain ⟨-, -, hxp₁, hxq₁⟩ := mem_roots_iff.mp h₁
  obtain ⟨-, -, hxp₂, hxq₂⟩ := mem_roots_iff.mp h₂
  rw [hp₁] at hxp₁
  rw [hq₁] at hxq₁
  rw [hp₂] at hxp₂
  rw [hq₂] at hxq₂
  refine mem_roots_iff.mpr
    ⟨Int.emod_nonneg _ key.n_pos.ne', Int.emod_lt_of_pos _ key.n_pos, ?_, ?_⟩
  · rw [hr]
    exact ((emod_n_modEq_p _).pow _).trans (mul_pow_symbolExponent hxp₁ hxp₂)
  · rw [hs]
    exact ((emod_n_modEq_q _).pow _).trans (mul_pow_symbolExponent hxq₁ hxq₂)

theorem one_mem_roots (hr : key.r = .plus) (hs : key.s = .plus) : 1 ∈ key.roots := by
  refine mem_roots_iff.mpr ⟨zero_le_one, key.one_lt, ?_, ?_⟩
  · rw [one_pow, hr]
    rfl
  · rw [one_pow, hs]
    rfl

theorem isProduct_self (hr : key.r = .plus) (hs : key.s = .plus) : IsProduct key key key := by
  refine ⟨rfl, rfl, rfl, rfl, ?_, ?_⟩
  · rw [hr]
    rfl
  · rw [hs]
    rfl

end PrivateKey

namespace Engine

open PrivateKey

variable {k₁ k₂ key : PrivateKey} {x y y₁ y₂ x₁ x₂ : Int}

theorem invert_of_mem_roots (hx : x ∈ key.roots) (hy : x ^ 2 % key.n = y) :
    key.engine.invert y = .ok x := by
  subst hy
  rw [invert_of_mem_squares (sq_mem_squares hx), combinedRoot_of_sq hx]

/-- What is inverted is the square of what is returned, which carries the selected symbols. -/
theorem mem_roots_of_invert (h : key.engine.invert y = .ok x) :
    x ∈ key.roots ∧ x ^ 2 % key.n = y := by
  obtain ⟨hy, rfl⟩ := invert_ok_iff.mp h
  exact ⟨combinedRoot_mem_roots hy, combinedRoot_sq hy⟩

theorem check_of_invert (h : key.engine.invert y = .ok x) :
    key.engine.check y = .ok .valid :=
  check_of_mem_squares (invert_ok_iff.mp h).1

theorem invert_mul_emod (h : IsProduct k₁ k₂ key) (h₁ : k₁.engine.invert y₁ = .ok x₁)
    (h₂ : k₂.engine.invert y₂ = .ok x₂) :
    key.engine.invert (y₁ * y₂ % key.n) = .ok (x₁ * x₂ % key.n) := by
  obtain ⟨hx₁, rfl⟩ := mem_roots_of_invert h₁
  obtain ⟨hx₂, rfl⟩ := mem_roots_of_invert h₂
  refine invert_of_mem_roots (h.mul_mem_roots hx₁ hx₂) ?_
  rw [n_eq_of_factors h.p_left h.q_left, n_eq_of_factors h.p_right h.q_right]
  exact sq_mul_emod x₁ x₂ key.n

/-- **Inversion is multiplicative.** Let two engines work over the same factors, with any
selectors and coefficients. Then there is a key whose selectors are the products, and the engine
of every such key accepts the product of two numbers that they invert, and inverts it to the
product of the two roots. With both selectors 1 one engine plays all three parts, and it inverts
1 to 1. -/
theorem invert_multiplicative :
    (∀ k₁ k₂ : PrivateKey, k₁.p = k₂.p → k₁.q = k₂.q → ∃ key, IsProduct k₁ k₂ key) ∧
    (∀ k₁ k₂ key : PrivateKey, IsProduct k₁ k₂ key → ∀ y₁ y₂ x₁ x₂,
      k₁.engine.invert y₁ = .ok x₁ → k₂.engine.invert y₂ = .ok x₂ →
        key.engine.check (y₁ * y₂ % key.n) = .ok .valid ∧
        key.engine.invert (y₁ * y₂ % key.n) = .ok (x₁ * x₂ % key.n)) ∧
    ∀ key : PrivateKey, key.r = .plus → key.s = .plus →
      key.engine.invert 1 = .ok 1 ∧
      ∀ y₁ y₂ x₁ x₂, key.engine.invert y₁ = .ok x₁ → key.engine.invert y₂ = .ok x₂ →
        key.engine.invert (y₁ * y₂ % key.n) = .ok (x₁ * x₂ % key.n) := by
  refine ⟨?_, ?_, ?_⟩
  · intro k₁ k₂ hp hq
    exact ⟨_, isProduct_withSelectors hp hq⟩
  · intro k₁ k₂ key h y₁ y₂ x₁ x₂ h₁ h₂
    have hinvert := invert_mul_emod h h₁ h₂
    exact ⟨check_of_invert hinvert, hinvert⟩
  · intro key hr hs
    refine ⟨invert_of_mem_roots (one_mem_roots hr hs) ?_, ?_⟩
    · rw [one_pow]
      exact Int.emod_eq_of_lt zero_le_one key.one_lt
    · intro y₁ y₂ x₁ x₂ h₁ h₂
      exact invert_mul_emod (isProduct_self hr hs) h₁ h₂

def sevenElevenUnreduced : PrivateKey :=
  { sevenEleven.withSelectors .plus .minus with
    u := -3
    coefficient := by decide }

theorem invert_multiplicative_four_nine :
    IsProduct sevenEleven (sevenEleven.withSelectors .minus .minus) sevenElevenUnreduced ∧
      sevenEleven.engine.invert 4 = .ok 75 ∧
      (sevenEleven.withSelectors .minus .minus).engine.invert 9 = .ok 52 ∧
      sevenElevenUnreduced.engine.invert 36 = .ok 50 := by
  have h : IsProduct sevenEleven (sevenEleven.withSelectors .minus .minus)
      sevenElevenUnreduced := ⟨rfl, rfl, rfl, rfl, rfl, rfl⟩
  have h₁ : sevenEleven.engine.invert 4 = .ok 75 := by decide +kernel
  have h₂ : (sevenEleven.withSelectors .minus .minus).engine.invert 9 = .ok 52 := by
    decide +kernel
  exact ⟨h, h₁, h₂, (invert_multiplicative.2.1 _ _ _ h 4 9 75 52 h₁ h₂).2⟩

end Engine

end Blum
