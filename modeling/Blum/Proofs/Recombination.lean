import Mathlib
import Blum.Proofs.Modular

/-!
# Recombination is a correspondence

Pairs of residues modulo two coprime moduli and residues modulo their product
are the same thing: recombination goes one way and taking remainders goes the
other. Of the coefficient only `u * p` modulo `q` matters, so it may have any
sign and size. That the moduli are coprime is not assumed: it is what having a
coefficient means. The second residue need not be reduced, as the formula
reduces its difference to the first.
-/

namespace Blum

def residues (m : Int) : Set Int :=
  {x | 0 ≤ x ∧ x < m}

theorem emod_mem_residues {m : Int} (hm : 0 < m) (x : Int) : x % m ∈ residues m :=
  ⟨Int.emod_nonneg x hm.ne', Int.emod_lt_of_pos x hm⟩

theorem emod_eq_of_modEq {m x y : Int} (hx : x ∈ residues m) (h : y ≡ x [ZMOD m]) :
    y % m = x := by
  rw [h, Int.emod_eq_of_lt hx.1 hx.2]

section Coefficient

variable {p q u : Int} (hp : 0 < p) (hq : 0 < q)

include hp hq in
theorem garner_mem_residues {xp : Int} (hxp : xp ∈ residues p) (xq u : Int) :
    garner xp xq p q u ∈ residues (p * q) :=
  ⟨garner_nonneg hp.le hq hxp.1 xq u, garner_lt hq hxp.1 hxp.2 xq u⟩

variable (hu : u * p ≡ 1 [ZMOD q])
include hp hq hu

/-- **One residue modulo the product belongs to each pair.** -/
theorem eq_garner_iff {xp x : Int} (hxp : xp ∈ residues p) (hx : x ∈ residues (p * q))
    (xq : Int) : x = garner xp xq p q u ↔ x ≡ xp [ZMOD p] ∧ x ≡ xq [ZMOD q] := by
  have hleft := garner_modEq_left xp xq p q u
  have hright := garner_modEq_right hu xp xq
  obtain ⟨hlo, hhi⟩ := garner_mem_residues hp hq hxp xq u
  constructor
  · rintro rfl
    exact ⟨hleft, hright⟩
  · rintro ⟨hxl, hxr⟩
    exact eq_of_modEq_factors (isCoprime_of_mul_modEq_one hu) hx.1 hx.2 hlo hhi
      (hxl.trans hleft.symm) (hxr.trans hright.symm)

def residuesEquiv : residues p × residues q ≃ residues (p * q) where
  toFun c := ⟨garner c.1 c.2 p q u, garner_mem_residues hp hq c.1.2 c.2 u⟩
  invFun x := (⟨x % p, emod_mem_residues hp x⟩, ⟨x % q, emod_mem_residues hq x⟩)
  left_inv c :=
    Prod.ext (Subtype.ext (emod_eq_of_modEq c.1.2 (garner_modEq_left ..)))
      (Subtype.ext (emod_eq_of_modEq c.2.2 (garner_modEq_right hu ..)))
  right_inv x :=
    Subtype.ext ((eq_garner_iff hp hq hu (emod_mem_residues hp x) x.2 _).mpr
      ⟨(Int.mod_modEq x p).symm, (Int.mod_modEq x q).symm⟩).symm

/-- **Recombination is the correspondence of residues.** It never fails. For a residue modulo `p`
and any number at all it finds the one residue modulo `p * q` that agrees with both, and on pairs
of residues it is undone by taking remainders. -/
theorem recombine_bijective :
    (∀ xp ∈ residues p, ∀ xq, ∃ x ∈ residues (p * q), recombine xp xq p q u = .ok x ∧
      x ≡ xp [ZMOD p] ∧ x ≡ xq [ZMOD q] ∧
      ∀ y ∈ residues (p * q), y ≡ xp [ZMOD p] → y ≡ xq [ZMOD q] → y = x) ∧
    ∃ e : residues p × residues q ≃ residues (p * q),
      (∀ c, recombine c.1 c.2 p q u = .ok (e c : Int)) ∧
      ∀ x, ((e.symm x).1 : Int) = x % p ∧ ((e.symm x).2 : Int) = x % q := by
  constructor
  · intro xp hxp xq
    refine ⟨_, garner_mem_residues hp hq hxp xq u, recombine_of_pos hq xp xq p u,
      garner_modEq_left .., garner_modEq_right hu .., ?_⟩
    intro y hy hyp hyq
    exact (eq_garner_iff hp hq hu hxp hy xq).mpr ⟨hyp, hyq⟩
  · refine ⟨residuesEquiv hp hq hu, fun c => recombine_of_pos hq _ _ p u, fun x => ?_⟩
    exact ⟨rfl, rfl⟩

end Coefficient

theorem recombine_bijective_seven_eleven :
    (-3) * 7 ≡ 1 [ZMOD 11] ∧ 3 ∈ residues 7 ∧ recombine 3 (-4) 7 11 (-3) = .ok 73 ∧
      (∀ y ∈ residues (7 * 11), y ≡ 3 [ZMOD 7] → y ≡ -4 [ZMOD 11] → y = 73) ∧
      ∃ e : residues 7 × residues 11 ≃ residues (7 * 11),
        ∀ c, recombine c.1 c.2 7 11 (-3) = .ok (e c : Int) := by
  have hu : (-3) * 7 ≡ 1 [ZMOD 11] := by decide
  have h3 : 3 ∈ residues 7 := ⟨by decide, by decide⟩
  have hvalue : recombine 3 (-4) 7 11 (-3) = .ok 73 := by decide
  obtain ⟨hone, e, he, -⟩ := recombine_bijective (by decide) (by decide) hu
  obtain ⟨x, -, hx, -, -, hunique⟩ := hone 3 h3 (-4)
  obtain rfl := Except.ok.inj (hvalue.symm.trans hx)
  exact ⟨hu, h3, hvalue, hunique, e, he⟩

end Blum
