import Mathlib
import Blum.Proofs.KeyMaterial
import Blum.Proofs.Products

/-!
# One trapdoor in many forms

The same trapdoor can be written down in many ways. A coefficient is kept as it
is given, so any number of the right residue class serves, negative ones
included; and the factors can change places if their selectors do. The formula
that recombines two roots treats the factors differently and uses the
coefficient directly, yet none of this can be seen from outside.

The argument does not look at the formula. Keys in such forms have the same
modulus and the same roots, a square has only one root, and everything that an
engine answers can be told from these: it accepts what some root squares to,
and inverts it to that root.
-/

namespace Blum

namespace PrivateKey

/-- Two keys of one modulus whose selectors name the same roots. -/
structure SameRoots (k k' : PrivateKey) : Prop where
  n : k.n = k'.n
  roots : k.roots = k'.roots

variable {k k' : PrivateKey}

theorem mem_squares_iff_exists_root {y : Int} :
    y ∈ k.squares ↔ ∃ x ∈ k.roots, x ^ 2 % k.n = y := by
  constructor
  · intro hy
    exact ⟨k.combinedRoot y, combinedRoot_mem_roots hy, combinedRoot_sq hy⟩
  · rintro ⟨x, hx, rfl⟩
    exact sq_mem_squares hx

namespace SameRoots

variable (h : SameRoots k k')
include h

theorem squares : k.squares = k'.squares := by
  ext y
  rw [mem_squares_iff_exists_root, mem_squares_iff_exists_root, h.n, h.roots]

/-- **The root of a square is the same**, since there is only one. -/
theorem combinedRoot_eq {y : Int} (hy : y ∈ k.squares) :
    k.combinedRoot y = k'.combinedRoot y := by
  have hx : k.combinedRoot y ∈ k'.roots := by
    rw [← h.roots]
    exact combinedRoot_mem_roots hy
  have hsq : k.combinedRoot y ^ 2 % k'.n = y := by
    rw [← h.n]
    exact combinedRoot_sq hy
  calc k.combinedRoot y
      = k'.combinedRoot (k.combinedRoot y ^ 2 % k'.n) := (combinedRoot_of_sq hx).symm
    _ = k'.combinedRoot y := by rw [hsq]

end SameRoots

/-! ## The forms of a trapdoor -/

theorem sameRoots_of_parts (hr : k.r = k'.r) (hs : k.s = k'.s) (hp : k.p = k'.p)
    (hq : k.q = k'.q) : SameRoots k k' := by
  have hn := n_eq_of_factors hp hq
  refine ⟨hn, ?_⟩
  ext x
  simp only [roots, Set.mem_ofPred_eq, hn, hr, hs, hp, hq]

theorem sameRoots_of_exchange (hr : k.r = k'.s) (hs : k.s = k'.r) (hp : k.p = k'.q)
    (hq : k.q = k'.p) : SameRoots k k' := by
  have hn : k.n = k'.n := by
    rw [← k.product, ← k'.product, hp, hq, mul_comm]
  refine ⟨hn, ?_⟩
  ext x
  simp only [roots, Set.mem_ofPred_eq, hn, hr, hs, hp, hq]
  rw [and_comm (a := eulerSymbol x k'.q = _)]

theorem sameRoots_of_ofInts {n r s p q u u' : Int} (hk : ofInts n r s p q u = .ok k)
    (hk' : ofInts n r s p q u' = .ok k' ∨ ofInts n s r q p u' = .ok k') :
    SameRoots k k' := by
  obtain ⟨-, hr, hs, hp, hq, -⟩ := ofInts_eq_ok_iff.mp hk
  rcases hk' with hk' | hk'
  · obtain ⟨-, hr', hs', hp', hq', -⟩ := ofInts_eq_ok_iff.mp hk'
    exact sameRoots_of_parts (toInt_injective (hr.trans hr'.symm))
      (toInt_injective (hs.trans hs'.symm)) (hp.trans hp'.symm) (hq.trans hq'.symm)
  · obtain ⟨-, hs', hr', hq', hp', -⟩ := ofInts_eq_ok_iff.mp hk'
    exact sameRoots_of_exchange (toInt_injective (hr.trans hr'.symm))
      (toInt_injective (hs.trans hs'.symm)) (hp.trans hp'.symm) (hq.trans hq'.symm)

/-- Any coefficient of the right residue class serves, and no other does. -/
theorem exists_ofInts_iff_modEq {n r s p q u : Int} (hk : ofInts n r s p q u = .ok k)
    (u' : Int) : (∃ k', ofInts n r s p q u' = .ok k') ↔ u' ≡ u [ZMOD q] := by
  obtain ⟨hadm, hn, hu⟩ := exists_ofInts_iff.mp ⟨k, hk⟩
  rw [exists_ofInts_iff]
  constructor
  · rintro ⟨-, -, hu'⟩
    exact modEq_of_mul_modEq_one hu' hu
  · intro h
    exact ⟨hadm, hn, (h.mul_right p).trans hu⟩

theorem exists_ofInts_exchange {n r s p q u : Int} (hk : ofInts n r s p q u = .ok k) :
    ∃ u' k', ofInts n s r q p u' = .ok k' := by
  obtain ⟨hn, rfl, rfl, rfl, rfl, -⟩ := ofInts_eq_ok_iff.mp hk
  have hadm := k.admissible
  rw [← hn, ← k.product, mul_comm]
  refine exists_coefficient_iff.mpr ⟨?_, by rw [Int.gcd_comm, k.gcd_factors]⟩
  exact ⟨hadm.s_symbol, hadm.r_symbol, hadm.three_le_q, hadm.three_le_p, hadm.q_mod_four,
    hadm.p_mod_four⟩

end PrivateKey

namespace Engine

open PrivateKey

variable {k k' : PrivateKey}

/-! ## The answers of the engines -/

section SameRoots

variable (h : SameRoots k k')
include h

theorem modulus_eq_of_sameRoots : k.engine.modulus = k'.engine.modulus := h.n

theorem apply_eq_of_sameRoots (x : Int) : k.engine.apply x = k'.engine.apply x := by
  rw [apply_eq, apply_eq, modulus_eq_of_sameRoots h]

theorem check_eq_of_sameRoots (x : Int) : k.engine.check x = k'.engine.check x := by
  by_cases hx : x ∈ k.squares
  · have hx' : x ∈ k'.squares := h.squares ▸ hx
    rw [check_of_mem_squares hx, check_of_mem_squares hx']
  · have hx' : x ∉ k'.squares := h.squares ▸ hx
    rw [check_of_not_mem_squares hx, check_of_not_mem_squares hx']

theorem accepts_eq_of_sameRoots (x : Int) : k.engine.accepts x = k'.engine.accepts x := by
  rw [accepts, accepts, check_eq_of_sameRoots h]

theorem invert_eq_of_sameRoots (y : Int) : k.engine.invert y = k'.engine.invert y := by
  by_cases hy : y ∈ k.squares
  · have hy' : y ∈ k'.squares := h.squares ▸ hy
    rw [invert_of_mem_squares hy, invert_of_mem_squares hy', h.combinedRoot_eq hy]
  · have hy' : y ∉ k'.squares := h.squares ▸ hy
    rw [invert_eq_error_of_not_mem_squares hy, invert_eq_error_of_not_mem_squares hy', h.n]

/-- Keys with the same roots serve every operation alike. -/
theorem run_eq_of_sameRoots (op : Operation) (x : Int) :
    op.run k.engine x = op.run k'.engine x := by
  cases op <;>
    simp only [Operation.run, applyThenInvert, invertThenApply, apply_eq_of_sameRoots h,
      invert_eq_of_sameRoots h, check_eq_of_sameRoots h, accepts_eq_of_sameRoots h]

end SameRoots

/-- **The form of a trapdoor cannot be seen.** Let numbers make a key. Then every coefficient of
the same residue class makes one, no other does, and there is one for the factors and selectors in
exchanged places. All these keys answer alike, with the same value or with the same fault,
whatever number or other operand they are asked about and whether or not their factors are
prime. -/
theorem trapdoor_forms_agree {n r s p q u : Int} (hk : ofInts n r s p q u = .ok k) :
    (∀ u', (∃ k', ofInts n r s p q u' = .ok k') ↔ u' ≡ u [ZMOD q]) ∧
    (∃ u' k', ofInts n s r q p u' = .ok k') ∧
    ∀ u' k', (ofInts n r s p q u' = .ok k' ∨ ofInts n s r q p u' = .ok k') →
      (∀ x : Int, k.engine.invert x = k'.engine.invert x ∧
        k.engine.check x = k'.engine.check x ∧
        k.engine.accepts x = k'.engine.accepts x) ∧
      ∀ (op : Operation) (a : Argument), op.call k.engine a = op.call k'.engine a := by
  refine ⟨exists_ofInts_iff_modEq hk, exists_ofInts_exchange hk, ?_⟩
  intro u' k' hk'
  have h := sameRoots_of_ofInts hk hk'
  refine ⟨fun x => ⟨invert_eq_of_sameRoots h x, check_eq_of_sameRoots h x,
    accepts_eq_of_sameRoots h x⟩, ?_⟩
  intro op a
  simp only [Operation.call, run_eq_of_sameRoots h]

def elevenSeven : PrivateKey where
  n := 77
  r := .plus
  s := .minus
  one_lt := sevenEleven.one_lt
  odd := sevenEleven.odd
  p := 11
  q := 7
  u := -5
  product := by decide
  distinct := sevenEleven.distinct.symm
  p_mod_four := sevenEleven.q_mod_four
  q_mod_four := sevenEleven.p_mod_four
  coefficient := by decide

theorem trapdoor_forms_agree_eleven_seven :
    ofInts 77 (-1) 1 7 11 8 = .ok sevenEleven ∧ ofInts 77 1 (-1) 11 7 (-5) = .ok elevenSeven ∧
      sevenEleven.engine.invert 4 = .ok 75 ∧ elevenSeven.engine.invert 4 = .ok 75 := by
  have hk : ofInts 77 (-1) 1 7 11 8 = .ok sevenEleven := by decide +kernel
  have hk' : ofInts 77 1 (-1) 11 7 (-5) = .ok elevenSeven := by decide +kernel
  have h75 : sevenEleven.engine.invert 4 = .ok 75 := by decide +kernel
  obtain ⟨hinvert, -⟩ := ((trapdoor_forms_agree hk).2.2 (-5) elevenSeven (Or.inr hk')).1 4
  exact ⟨hk, hk', h75, hinvert.symm.trans h75⟩

end Engine

end Blum
