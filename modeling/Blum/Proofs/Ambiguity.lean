import Mathlib
import Blum.Proofs.Orbits

/-!
# What an open question leaves open

An engine that does not know the factors leaves a number open if its Jacobi
symbol is 1. Modulo two primes this means that both symbols are 1 or both are
-1. Numbers of the first sort can be inverted and numbers of the second cannot,
and the two sorts are the negatives of each other, because -1 carries the symbol
-1 modulo each factor. So the answer is open in a strict sense: of a number and
its negative both are left open or none is, and if they are, exactly one of them
is valid.

The units fall into four sorts by their symbols. For each choice of selectors
the forward map is a bijection onto the squares, so all four are equally large.
-/

namespace Blum

def unitsBelow (n : Int) : Set Int :=
  {z | 0 ≤ z ∧ z < n ∧ Int.gcd z n = 1}

theorem ncard_unitsBelow {n : Int} (hn : 0 ≤ n) : (unitsBelow n).ncard = n.toNat.totient := by
  have himage : unitsBelow n =
      (Nat.cast : Nat → Int) '' ((Finset.range n.toNat).filter n.toNat.Coprime) := by
    obtain ⟨m, rfl⟩ := Int.eq_ofNat_of_zero_le hn
    ext z
    simp only [unitsBelow, Set.mem_ofPred_eq, Set.mem_image, Finset.coe_filter,
      Finset.mem_range, Int.toNat_natCast]
    constructor
    · rintro ⟨h₀, hlt, hgcd⟩
      obtain ⟨k, rfl⟩ := Int.eq_ofNat_of_zero_le h₀
      refine ⟨k, ⟨Int.ofNat_lt.mp hlt, ?_⟩, rfl⟩
      rwa [Int.gcd_natCast_natCast, Nat.gcd_comm] at hgcd
    · rintro ⟨k, ⟨hlt, hgcd⟩, rfl⟩
      refine ⟨Int.natCast_nonneg k, Int.ofNat_lt.mpr hlt, ?_⟩
      rw [Int.gcd_natCast_natCast, Nat.gcd_comm]
      exact hgcd
  rw [himage, Set.ncard_image_of_injective _ Nat.cast_injective, Set.ncard_coe_finset,
    Nat.totient_eq_card_coprime]

namespace PrivateKey

variable {key : PrivateKey} {x : Int} {r s : Selector}

/-! ## Negatives -/

/-- The negative of a unit carries the opposite symbols. -/
theorem n_sub_mem_roots (hx : x ∈ (key.withSelectors r s).roots) :
    key.n - x ∈ (key.withSelectors r.opposite s.opposite).roots := by
  obtain ⟨-, hn, hp, hq⟩ := mem_roots_iff.mp hx
  have hpos : 0 < x := pos_of_mem_roots hx
  have hneg {p : Int} {σ : Selector} (hp3 : 3 ≤ p) (h4 : p % 4 = 3)
      (h : x ^ symbolExponent p ≡ σ.toInt [ZMOD p]) :
      (-x) ^ symbolExponent p ≡ σ.opposite.toInt [ZMOD p] := by
    rw [(odd_symbolExponent hp3 h4).neg_pow, Selector.toInt_opposite]
    exact h.neg
  refine mem_roots_iff.mpr ⟨sub_nonneg.mpr hn.le, sub_lt_self _ hpos, ?_, ?_⟩
  · exact ((n_sub_modEq_p x).pow _).trans (hneg key.three_le_p key.p_mod_four hp)
  · exact ((n_sub_modEq_q x).pow _).trans (hneg key.three_le_q key.q_mod_four hq)

theorem n_sub_not_mem_squares (hx : x ∈ key.squares) : key.n - x ∉ key.squares := by
  intro h
  rw [squares_eq_roots] at hx h
  have hσ : (Selector.plus, Selector.plus) = (Selector.minus, Selector.minus) :=
    selectors_unique h (n_sub_mem_roots hx)
  cases hσ

/-! ## The four sorts of units -/

theorem ncard_roots (key : PrivateKey) (r s : Selector) :
    (key.withSelectors r s).roots.ncard = key.squares.ncard :=
  Nat.card_congr (key.withSelectors r s).rootsEquivSquares

theorem disjoint_roots {σ τ : Selector × Selector} (h : σ ≠ τ) :
    Disjoint (key.withSelectors σ.1 σ.2).roots (key.withSelectors τ.1 τ.2).roots := by
  rw [Set.disjoint_left]
  intro x hσ hτ
  exact h (selectors_unique hσ hτ)

section Prime

variable [hp : Fact key.p.toNat.Prime] [hq : Fact key.q.toNat.Prime]

theorem unitsBelow_eq_iUnion :
    unitsBelow key.n = ⋃ σ : Selector × Selector, (key.withSelectors σ.1 σ.2).roots := by
  ext x
  rw [Set.mem_iUnion]
  constructor
  · rintro ⟨h₀, hn, hgcd⟩
    exact exists_mem_roots h₀ hn hgcd
  · rintro ⟨σ, hσ⟩
    have hgcd := gcd_of_mem_roots hσ
    exact ⟨hσ.1, hσ.2.1, hgcd⟩

theorem totient_n : (key.n.toNat.totient : Int) = (key.p - 1) * (key.q - 1) := by
  have hn : key.n.toNat = key.p.toNat * key.q.toNat := by
    rw [← key.product, Int.toNat_mul key.p_pos.le key.q_pos.le]
  have hcoprime : key.p.toNat.Coprime key.q.toNat := by
    rw [← Nat.isCoprime_iff_coprime, Int.toNat_of_nonneg key.p_pos.le,
      Int.toNat_of_nonneg key.q_pos.le]
    exact key.isCoprime_factors
  rw [hn, Nat.totient_mul hcoprime, Nat.totient_prime hp.out, Nat.totient_prime hq.out,
    Nat.cast_mul, Nat.cast_sub hp.out.one_le, Nat.cast_sub hq.out.one_le,
    Int.toNat_of_nonneg key.p_pos.le, Int.toNat_of_nonneg key.q_pos.le, Nat.cast_one]

/-- **A quarter of the units are squares.** -/
theorem four_mul_ncard_squares :
    4 * (key.squares.ncard : Int) = (key.p - 1) * (key.q - 1) := by
  have hcount : (unitsBelow key.n).ncard = 4 * key.squares.ncard := by
    rw [unitsBelow_eq_iUnion, Set.ncard_iUnion_of_finite, finsum_eq_sum_of_fintype]
    · simp only [ncard_roots, Finset.sum_const, smul_eq_mul]
      rfl
    · intro σ
      exact finite_roots _
    · intro σ τ hne
      exact disjoint_roots hne
  rw [← totient_n, ← ncard_unitsBelow key.n_pos.le, hcount, Nat.cast_mul]
  rfl

theorem jacobiSym_n (x : Int) :
    jacobiSym x key.n.toNat = legendreSym key.p.toNat x * legendreSym key.q.toNat x := by
  have : NeZero key.p.toNat := ⟨hp.out.ne_zero⟩
  have : NeZero key.q.toNat := ⟨hq.out.ne_zero⟩
  rw [← key.product, Int.toNat_mul key.p_pos.le key.q_pos.le, jacobiSym.mul_right,
    jacobiSym.legendreSym.to_jacobiSym, jacobiSym.legendreSym.to_jacobiSym]

end Prime

end PrivateKey

namespace Engine

open PrivateKey

variable {key : PrivateKey} {x : Int}

/-! ## Open numbers -/

/-- The numbers that an engine leaves open. -/
def openElements (e : Engine) : Set Int :=
  {x | e.check x = .ok .unknown}

theorem check_pub_eq_unknown_iff {key : PublicKey} :
    check ⟨.pub key⟩ x = .ok .unknown ↔
      (0 < x ∧ x < key.n) ∧ jacobiSym x key.n.toNat = 1 := by
  by_cases hrange : 0 < x ∧ x < key.n
  · rw [check_pub_of_between hrange, and_iff_right hrange]
    split_ifs with h
    · simpa using h
    · simpa using h
  · have hcheck : check ⟨.pub key⟩ x = .ok .notValid := check_of_not_between hrange
    rw [hcheck]
    simp [hrange]

/-- A number and its negative are left open together. The factors need not be prime. -/
theorem check_publicOnly_n_sub (h₀ : 0 < x) (hn : x < key.n) :
    key.engine.publicOnly.check (key.n - x) = .ok .unknown ↔
      key.engine.publicOnly.check x = .ok .unknown := by
  have hx : (0 < x ∧ x < key.n) ∧ 0 < key.n - x ∧ key.n - x < key.n := by omega
  show check ⟨.pub key.toPublicKey⟩ (key.n - x) = _ ↔ check ⟨.pub key.toPublicKey⟩ x = _
  rw [check_pub_eq_unknown_iff, check_pub_eq_unknown_iff, and_iff_right hx.1,
    and_iff_right hx.2, jacobiSym_sub_left key.n_pos key.n_mod_four]

section Prime

variable [hp : Fact key.p.toNat.Prime] [hq : Fact key.q.toNat.Prime]

/-- The open numbers carry two symbols 1 or two symbols -1. -/
theorem openElements_publicOnly : key.engine.publicOnly.openElements =
    (key.withSelectors .plus .plus).roots ∪ (key.withSelectors .minus .minus).roots := by
  ext x
  show check ⟨.pub key.toPublicKey⟩ x = .ok .unknown ↔ _
  rw [check_pub_eq_unknown_iff, jacobiSym_n, Int.mul_eq_one_iff_eq_one_or_neg_one,
    Set.mem_union]
  constructor
  · rintro ⟨⟨h₀, hn⟩, hplus | hminus⟩
    · exact Or.inl (mem_roots_withSelectors_iff.mpr ⟨h₀.le, hn, hplus⟩)
    · exact Or.inr (mem_roots_withSelectors_iff.mpr ⟨h₀.le, hn, hminus⟩)
  · rintro (h | h)
    · obtain ⟨-, hn, hplus⟩ := mem_roots_withSelectors_iff.mp h
      exact ⟨⟨pos_of_mem_roots h, hn⟩, Or.inl hplus⟩
    · obtain ⟨-, hn, hminus⟩ := mem_roots_withSelectors_iff.mp h
      exact ⟨⟨pos_of_mem_roots h, hn⟩, Or.inr hminus⟩

theorem mem_squares_or_n_sub_mem_squares
    (h : key.engine.publicOnly.check x = .ok .unknown) :
    x ∈ key.squares ∨ key.n - x ∈ key.squares := by
  have hopen : x ∈ key.engine.publicOnly.openElements := h
  rw [openElements_publicOnly] at hopen
  rw [squares_eq_roots]
  rcases hopen with hplus | hminus
  · exact Or.inl hplus
  · exact Or.inr (n_sub_mem_roots hminus)

theorem ncard_openElements :
    key.engine.publicOnly.openElements.ncard = 2 * key.squares.ncard := by
  have hdisjoint : Disjoint (key.withSelectors .plus .plus).roots
      (key.withSelectors .minus .minus).roots :=
    disjoint_roots (σ := (.plus, .plus)) (τ := (.minus, .minus)) (by decide)
  rw [openElements_publicOnly,
    Set.ncard_union_eq hdisjoint (finite_roots _) (finite_roots _), ncard_roots, ncard_roots,
    two_mul]

end Prime

/-- **An open answer is an even chance.** Let the factors be prime. A number and its negative
are left open together, and then exactly one of them is valid. Half of the units are left open
and a quarter of them are valid. Whatever the factors are, a number and its negative are never
both valid. -/
theorem open_evenly_split (key : PrivateKey) :
    (key.p.toNat.Prime → key.q.toNat.Prime →
      (∀ x, 0 < x → x < key.n →
        (key.engine.publicOnly.check x = .ok .unknown ↔
          key.engine.publicOnly.check (key.n - x) = .ok .unknown) ∧
        (key.engine.publicOnly.check x = .ok .unknown →
          Xor (key.engine.check x = .ok .valid)
            (key.engine.check (key.n - x) = .ok .valid))) ∧
      2 * (key.engine.publicOnly.openElements.ncard : Int) = (key.p - 1) * (key.q - 1) ∧
      4 * (key.engine.validElements.ncard : Int) = (key.p - 1) * (key.q - 1)) ∧
    ∀ x, ¬ (key.engine.check x = .ok .valid ∧
      key.engine.check (key.n - x) = .ok .valid) := by
  constructor
  · intro hp hq
    have : Fact key.p.toNat.Prime := ⟨hp⟩
    have : Fact key.q.toNat.Prime := ⟨hq⟩
    refine ⟨?_, ?_, ?_⟩
    · intro x h₀ hn
      refine ⟨(check_publicOnly_n_sub h₀ hn).symm, ?_⟩
      intro hopen
      rw [check_eq_valid_iff, check_eq_valid_iff]
      rcases mem_squares_or_n_sub_mem_squares hopen with hx | hx
      · exact Or.inl ⟨hx, n_sub_not_mem_squares hx⟩
      · refine Or.inr ⟨hx, ?_⟩
        intro h
        exact n_sub_not_mem_squares h hx
    · rw [ncard_openElements, ← four_mul_ncard_squares, Nat.cast_mul, ← mul_assoc]
      rfl
    · rw [validElements_eq, four_mul_ncard_squares]
  · intro x
    rw [check_eq_valid_iff, check_eq_valid_iff]
    rintro ⟨hx, hneg⟩
    exact n_sub_not_mem_squares hx hneg

theorem open_evenly_split_seven_eleven :
    Nat.Prime 7 ∧ Nat.Prime 11 ∧
      sevenEleven.engine.publicOnly.check 4 = .ok .unknown ∧
      Xor (sevenEleven.engine.check 4 = .ok .valid)
        (sevenEleven.engine.check 73 = .ok .valid) ∧
      sevenEleven.engine.validElements.ncard = 15 := by
  have h7 : Nat.Prime 7 := by decide
  have h11 : Nat.Prime 11 := by decide
  have hopen : sevenEleven.engine.publicOnly.check 4 = .ok .unknown := by decide +kernel
  obtain ⟨hsplit, -, hvalid⟩ := (open_evenly_split sevenEleven).1 h7 h11
  have hcount : 4 * (sevenEleven.engine.validElements.ncard : Int) = 4 * 15 := hvalid
  refine ⟨h7, h11, hopen, (hsplit 4 (by decide) (by decide)).2 hopen, ?_⟩
  omega

end Engine

end Blum
