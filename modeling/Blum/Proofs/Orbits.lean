import Mathlib
import Blum.Proofs.Products

/-!
# Iteration

With both selectors 1 the roots that inversion returns are squares themselves.
The forward map then permutes the numbers that can be inverted, and inversion is
the inverse permutation, so either one can be repeated any number of times and
be undone by as many steps of the other. A permutation of a finite set has
finite order, which brings every orbit back to where it began.

With any other selectors one inversion leads out of the domain. The root carries
the symbol -1 modulo one of the factors, and only numbers with two symbols 1 can
be inverted. The factors need not be prime for this, since the symbol of a root
is known from the selectors.
-/

namespace Blum

namespace Engine

/-- Repeats a map `k` times, as long as no step fails. -/
def iterate (f : Int → Except Fault Int) : Nat → Int → Except Fault Int
  | 0, x => .ok x
  | k + 1, x => do iterate f k (← f x)

theorem iterate_succ {f : Int → Except Fault Int} {x y : Int} (h : f x = .ok y) (k : Nat) :
    iterate f (k + 1) x = iterate f k y := by
  rw [iterate, h]
  rfl

/-! ## Maps that follow a permutation -/

section Perm

variable {S : Set Int} {e : Equiv.Perm S} {f g : Int → Except Fault Int}

theorem iterate_eq_pow (hf : ∀ x : S, f x = .ok (e x : Int)) (k : Nat) (x : S) :
    iterate f k x = .ok ((e ^ k) x : Int) := by
  induction k generalizing x with
  | zero => rfl
  | succ k ih =>
      rw [iterate_succ (hf x), ih, pow_succ]
      rfl

theorem iterate_symm_pow (hg : ∀ x : S, g x = .ok (e.symm x : Int)) (k : Nat) (x : S) :
    iterate g k ((e ^ k) x) = .ok (x : Int) := by
  have hinv : (e.symm ^ k) ((e ^ k) x) = x := by
    show ((e⁻¹ ^ k) * e ^ k) x = x
    rw [inv_pow, inv_mul_cancel]
    rfl
  rw [iterate_eq_pow hg, hinv]

/-- On a finite set every orbit closes. -/
theorem exists_iterate_eq_self [Finite S] (hf : ∀ x : S, f x = .ok (e x : Int)) (x : S) :
    ∃ k, 1 ≤ k ∧ iterate f k x = .ok (x : Int) := by
  refine ⟨orderOf e, orderOf_pos e, ?_⟩
  rw [iterate_eq_pow hf, pow_orderOf_eq_one]
  rfl

end Perm

end Engine

namespace PrivateKey

variable {key : PrivateKey}

/-! ## Both selectors 1 -/

theorem roots_eq_squares (hr : key.r = .plus) (hs : key.s = .plus) :
    key.roots = key.squares := by
  unfold roots squares
  rw [hr, hs]
  rfl

def squaring (hr : key.r = .plus) (hs : key.s = .plus) : Equiv.Perm key.squares :=
  (Equiv.setCongr (roots_eq_squares hr hs)).symm.trans key.rootsEquivSquares

theorem squares_eq_roots (key : PrivateKey) :
    key.squares = (key.withSelectors .plus .plus).roots := by
  symm
  exact roots_eq_squares rfl rfl

theorem finite_roots (key : PrivateKey) : key.roots.Finite := by
  refine (Set.finite_Ico 0 key.n).subset ?_
  rintro x ⟨h₀, hn, -⟩
  exact ⟨h₀, hn⟩

theorem finite_squares (key : PrivateKey) : key.squares.Finite := by
  rw [squares_eq_roots]
  exact finite_roots _

/-! ## Other selectors -/

theorem one_mem_squares (key : PrivateKey) : 1 ∈ key.squares := by
  have hn := key.one_lt
  refine mem_squares_iff.mpr ⟨by decide, by omega, ?_, ?_⟩
  · rw [one_pow]
  · rw [one_pow]

/-- A root that selectors other than 1 name is no square. -/
theorem not_mem_squares_of_mem_roots (h : ¬ (key.r = .plus ∧ key.s = .plus)) {x : Int}
    (hx : x ∈ key.roots) : x ∉ key.squares := by
  rintro ⟨-, -, hp, hq⟩
  rcases hx with ⟨-, -, hr, hs⟩
  rw [hp] at hr
  rw [hq] at hs
  apply h
  exact ⟨toInt_injective (Except.ok.inj hr).symm, toInt_injective (Except.ok.inj hs).symm⟩

end PrivateKey

namespace Engine

open PrivateKey

variable {key : PrivateKey}

def validElements (e : Engine) : Set Int :=
  {y | e.check y = .ok .valid}

theorem validElements_eq (key : PrivateKey) : key.engine.validElements = key.squares := by
  ext y
  exact check_eq_valid_iff

theorem apply_eq_squaring (hr : key.r = .plus) (hs : key.s = .plus) (y : key.squares) :
    key.engine.apply y = .ok (squaring hr hs y : Int) :=
  apply_eq_rootsEquivSquares ((Equiv.setCongr (roots_eq_squares hr hs)).symm y)

theorem invert_eq_squaring_symm (hr : key.r = .plus) (hs : key.s = .plus) (y : key.squares) :
    key.engine.invert y = .ok ((squaring hr hs).symm y : Int) :=
  invert_eq_rootsEquivSquares_symm y

/-- **Iteration.** With both selectors 1 the forward map and inversion are inverse permutations
of the valid numbers. From a valid number any number of steps in either direction succeeds, ends
in a valid number and is undone by as many steps in the other direction, and some number of
forward steps returns to the start. With any other selectors the inverse of a valid number is
not valid, and inverting twice fails. -/
theorem iterate_valid (key : PrivateKey) :
    (key.r = .plus → key.s = .plus →
      (∃ e : Equiv.Perm key.engine.validElements, ∀ y : key.engine.validElements,
        key.engine.apply y = .ok (e y : Int) ∧
        key.engine.invert y = .ok (e.symm y : Int)) ∧
      ∀ y, key.engine.check y = .ok .valid →
        (∀ k, ∃ z, iterate key.engine.apply k y = .ok z ∧
          key.engine.check z = .ok .valid ∧ iterate key.engine.invert k z = .ok y) ∧
        (∀ k, ∃ z, iterate key.engine.invert k y = .ok z ∧
          key.engine.check z = .ok .valid ∧ iterate key.engine.apply k z = .ok y) ∧
        ∃ k, 1 ≤ k ∧ iterate key.engine.apply k y = .ok y) ∧
    (¬ (key.r = .plus ∧ key.s = .plus) → ∀ y, key.engine.check y = .ok .valid →
      ∃ x, key.engine.invert y = .ok x ∧ key.engine.check x = .ok .notValid ∧
        FailsWith (DigitLimit.raised none (iterate key.engine.invert 2 y)) .invalidInput ∧
        ∀ limit : DigitLimit, FailsWith (limit.raised (iterate key.engine.invert 2 y))
          (limit.kindFor .invalidInput [x])) := by
  constructor
  · intro hr hs
    have hf := apply_eq_squaring hr hs
    have hg := invert_eq_squaring_symm hr hs
    have hfinite : Finite key.squares := key.finite_squares
    refine ⟨?_, ?_⟩
    · rw [validElements_eq]
      exact ⟨squaring hr hs, fun y => ⟨hf y, hg y⟩⟩
    · intro y hy
      lift y to key.squares using check_eq_valid_iff.mp hy
      refine ⟨fun k => ?_, fun k => ?_, exists_iterate_eq_self hf y⟩
      · exact ⟨_, iterate_eq_pow hf k y, check_of_mem_squares (Subtype.property _),
          iterate_symm_pow hg k y⟩
      · exact ⟨_, iterate_eq_pow hg k y, check_of_mem_squares (Subtype.property _),
          iterate_symm_pow hf k y⟩
  · intro h y hy
    have hsquare := check_eq_valid_iff.mp hy
    have hinvert := invert_of_mem_squares hsquare
    have hroot := combinedRoot_mem_roots hsquare
    have hout := not_mem_squares_of_mem_roots h hroot
    have htwice : iterate key.engine.invert 2 y = key.engine.invert (key.combinedRoot y) := by
      rw [iterate_succ hinvert, iterate]
      exact bind_pure _
    refine ⟨_, hinvert, check_of_not_mem_squares hout, ?_, fun limit => ?_⟩
    · rw [htwice, DigitLimit.raised_none]
      exact invert_of_not_mem_squares hout
    · have hraised := raised_invert_of_not_mem_squares hout limit
      rw [if_pos ⟨pos_of_mem_roots hroot, hroot.2.1⟩] at hraised
      rwa [htwice]

/-- A key of the factors `10 ^ 4300 + 3` and 3, of which nobody needs to know whether the first
one is prime. -/
def longKey : PrivateKey where
  n := (tooLong + 3) * 3
  r := .minus
  s := .plus
  one_lt := by decide +kernel
  odd := by decide +kernel
  p := tooLong + 3
  q := 3
  u := 1
  product := rfl
  distinct := by decide +kernel
  p_mod_four := by decide +kernel
  q_mod_four := by decide
  coefficient := by decide +kernel

theorem not_admits_root_longKey : ¬ DigitLimit.Admits (some 4300) (longKey.combinedRoot 1) := by
  have hroot := combinedRoot_modEq_p longKey 1
  rw [one_pow, mul_one] at hroot
  have hdvd : tooLong + 3 ∣ longKey.combinedRoot 1 + 1 := by
    have := (Int.modEq_iff_dvd.mp hroot.symm)
    rwa [show longKey.r.toInt = -1 from rfl, sub_neg_eq_add] at this
  have hpos := pos_of_mem_roots (combinedRoot_mem_roots longKey.one_mem_squares)
  have hle := Int.le_of_dvd (by omega) hdvd
  have hlong : 0 ≤ tooLong := by decide +kernel
  intro hadmits
  exact not_admits_tooLong (hadmits.mono (by omega))

/-- Modulo 77 the orbit of 4 closes if both selectors are 1, and one inversion leads out of the
domain if one of them is not. What the second inversion cannot invert may be too long to say. -/
theorem iterate_valid_seven_eleven :
    (∃ k, 1 ≤ k ∧
      iterate (sevenEleven.withSelectors .plus .plus).engine.apply k 4 = .ok 4) ∧
    FailsWith (iterate sevenEleven.engine.invert 2 4) .invalidInput ∧
    FailsWith (DigitLimit.raised none (iterate longKey.engine.invert 2 1)) .invalidInput ∧
    FailsWith (DigitLimit.raised (some 4300) (iterate longKey.engine.invert 2 1)) .value := by
  have hplus : (sevenEleven.withSelectors .plus .plus).engine.check 4 = .ok .valid := by
    decide +kernel
  have hminus : sevenEleven.engine.check 4 = .ok .valid := by decide +kernel
  have hlong : longKey.engine.check 1 = .ok .valid :=
    check_eq_valid_iff.mpr longKey.one_mem_squares
  obtain ⟨-, -, -, hfails, -⟩ := (iterate_valid sevenEleven).2 (by decide) 4 hminus
  obtain ⟨x, hx, -, hnone, hlimit⟩ := (iterate_valid longKey).2 (by decide) 1 hlong
  rw [DigitLimit.raised_none] at hfails
  refine ⟨(((iterate_valid _).1 rfl rfl).2 4 hplus).2.2, hfails, hnone, ?_⟩
  obtain rfl := Except.ok.inj (hx.symm.trans (invert_of_mem_squares longKey.one_mem_squares))
  have hkind := hlimit (some 4300)
  rwa [DigitLimit.kindFor, if_neg fun h => not_admits_root_longKey (h _ (by simp))] at hkind

end Engine

end Blum
