import Mathlib
import Blum.Arith.Symbol
import Blum.Proofs.Modular

/-!
# The Jacobi symbol

The recursion by reciprocity computes mathlib's Jacobi symbol for every odd
modulus. The two signs that it multiplies together are those of the
supplementary law for 2 and of the reciprocity law; each is read off the
residues modulo 8 and 4.
-/

namespace Blum

theorem jacobiSym_of_even {a n : Nat} (ha : a % 2 = 0) (hn : n % 2 = 1) :
    jacobiSym a n = symbolOfTwo n * jacobiSym (a / 2 : Nat) n := by
  have h := jacobiSym.even_odd (a := (a : Int)) (b := n) (by omega) hn
  rw [← h, symbolOfTwo]
  push_cast
  have hres : n % 8 = 1 ∨ n % 8 = 3 ∨ n % 8 = 5 ∨ n % 8 = 7 := by omega
  rcases hres with h8 | h8 | h8 | h8 <;> simp [h8]

theorem jacobiSym_of_odd {a n : Nat} (ha : a % 2 = 1) (hn : n % 2 = 1) :
    jacobiSym a n = reciprocitySign a n * jacobiSym (n % a : Nat) a := by
  rw [← jacobiSym.quadratic_reciprocity_if ha hn, jacobiSym.mod_left (n : Int) a,
    reciprocitySign]
  push_cast
  split_ifs <;> ring

/-- **The recursion computes the symbol.** The induction follows the recursion:
a factor 2 is taken out, or the two arguments change places. -/
theorem jacobiNat_eq_jacobiSym (a n : Nat) (hn : n % 2 = 1) :
    jacobiNat a n = jacobiSym a n := by
  induction a, n using jacobiNat.induct with
  | case1 =>
      rw [jacobiNat, if_pos rfl, if_pos rfl, jacobiSym.one_right]
  | case2 n h1 =>
      rw [jacobiNat, if_pos rfl, if_neg h1, Nat.cast_zero, jacobiSym.zero_left (by omega)]
  | case3 a n ha heven ih =>
      rw [jacobiNat, if_neg ha, if_pos heven, ih hn, jacobiSym_of_even heven hn]
  | case4 a n ha hodd ih =>
      rw [jacobiNat, if_neg ha, if_neg hodd, ih (by omega), jacobiSym_of_odd (by omega) hn]

theorem jacobiSymbol_eq {n : Int} (hn : 0 < n) (hodd : n % 2 = 1) (a : Int) :
    jacobiSymbol a n = .ok (jacobiSym a n.toNat) := by
  have hcast : (n.toNat : Int) = n := Int.toNat_of_nonneg hn.le
  rw [jacobiSymbol, if_neg (by omega), jacobiNat_eq_jacobiSym _ _ (by omega),
    natCast_toNat_emod hn, jacobiSym.mod_left a, hcast]

theorem jacobiSym_sub_left {n : Int} (hn : 0 < n) (h4 : n % 4 = 1) (x : Int) :
    jacobiSym (n - x) n.toNat = jacobiSym x n.toNat := by
  have hcast : (n.toNat : Int) = n := Int.toNat_of_nonneg hn.le
  have hmod : n.toNat % 4 = 1 := by omega
  have hodd : Odd n.toNat := Nat.odd_iff.mpr (by omega)
  calc jacobiSym (n - x) n.toNat
      = jacobiSym (-1 * x) n.toNat := by
        refine jacobiSym.mod_left' ?_
        rw [hcast, neg_one_mul, sub_eq_neg_add, Int.add_emod_right]
    _ = jacobiSym (-1) n.toNat * jacobiSym x n.toNat := jacobiSym.mul_left ..
    _ = jacobiSym x n.toNat := by
        rw [jacobiSym.at_neg_one hodd, ZMod.χ₄_nat_one_mod_four hmod, one_mul]

theorem jacobiSym_sq_emod {n z : Int} (hn : 0 < n) (hz : Int.gcd z n = 1) :
    jacobiSym (z ^ 2 % n) n.toNat = 1 := by
  have hcast : (n.toNat : Int) = n := Int.toNat_of_nonneg hn.le
  have hmod := jacobiSym.mod_left (z ^ 2) n.toNat
  rw [hcast] at hmod
  rw [← hmod]
  apply jacobiSym.sq_one'
  rwa [hcast]

end Blum
