import Mathlib
import Blum.Proofs.Membership
import Blum.Proofs.Sampling
import Blum.Random.ByteStream

/-!
# The attempts at a random element

A random element is found by two loops, one inside the other: numbers are drawn
until one is below the modulus, and numbers below the modulus are drawn until
one is a unit. Both start again on the bytes that follow, so together they are
one search through the consecutive blocks of the stream, each as long as the
bytes of one number. The answer is the square that belongs to the first block
that passes both tests, and nothing after that block is touched.

What the search returns is the square of a unit. Its Jacobi symbol is therefore
1 modulo any odd modulus, and with prime factors it can be inverted. The search
looks at the modulus only, so it makes no difference what else the engine knows.
-/

namespace Blum

namespace Source

/-- The raw bytes of attempt `i` at a number, if each attempt takes `size` bytes. -/
def block (s : Source) (size i : Nat) : List UInt8 :=
  (List.range size).map fun j => s.byteAt (s.bytesUsed + i * size + j)

theorem block_zero (s : Source) (size : Nat) : s.block size 0 = s.next size := by
  simp [block, next]

theorem block_spend (s : Source) (size calls i : Nat) :
    (s.spend size calls).block size i = s.block size (i + 1) := by
  simp [block, spend, Nat.add_mul, Nat.add_assoc, Nat.add_comm, Nat.add_left_comm]

theorem Grants.mono {s : Source} {m n j k : Nat} (h : s.Grants n k) (hm : m ≤ n)
    (hj : j ≤ k) : s.Grants m j := by
  rcases h with ⟨hbytes, hcalls⟩
  exact ⟨(Nat.add_le_add_left hm _).trans hbytes, (Nat.add_le_add_left hj _).trans hcalls⟩

/-- A source that grants one attempt grants as many more as it does afterwards. -/
theorem grants_spend_iff {s : Source} {size calls k : Nat} :
    (s.spend size calls).Grants (k * size) (k * calls) ↔
      s.Grants ((k + 1) * size) ((k + 1) * calls) := by
  simp only [Grants, spend, Nat.add_mul, Nat.one_mul, Nat.add_assoc, Nat.add_comm,
    Nat.add_left_comm]

end Source

namespace Engine

variable {e : Engine} {s : Source} {k : Nat} {y : Int}

/-! ## The search -/

/-- The number that attempt `i` reads off its block. -/
def drawn (e : Engine) (s : Source) (i : Nat) : Nat :=
  e.sampleValue (s.block e.sampleBytes i)

/-- A number passes if its successor is a unit below the modulus. -/
def Passes (e : Engine) (v : Nat) : Prop :=
  (v : Int) ≤ e.modulus - 2 ∧ Int.gcd (v + 1) e.modulus = 1

instance (e : Engine) (v : Nat) : Decidable (e.Passes v) :=
  inferInstanceAs (Decidable (_ ∧ _))

/-- Attempt `k` is the first one whose number passes, and `y` is what it makes of it. -/
structure FirstPass (e : Engine) (s : Source) (k : Nat) (y : Int) : Prop where
  refused : ∀ i < k, ¬ e.Passes (e.drawn s i)
  passes : e.Passes (e.drawn s k)
  square : y = ((e.drawn s k : Int) + 1) ^ 2 % e.modulus

theorem FirstPass.unique {j : Nat} {x : Int} (h : e.FirstPass s k y)
    (h' : e.FirstPass s j x) : k = j ∧ y = x := by
  rcases lt_trichotomy k j with hlt | rfl | hlt
  · exact absurd h.passes (h'.refused k hlt)
  · exact ⟨rfl, h.square.trans h'.square.symm⟩
  · exact absurd h'.passes (h.refused j hlt)

theorem passes_iff (raw : List UInt8) :
    e.Passes (e.sampleValue raw) ↔ e.sampleValue raw ≤ e.modulus.toNat - 2 ∧
      Nat.gcd (1 + e.sampleValue raw) e.modulus.toNat = 1 := by
  have hone : 1 < e.modulus := e.publicKey.one_lt
  rw [Passes, ← gcd_modulus, Nat.cast_add, Nat.cast_one, add_comm (1 : Int)]
  refine and_congr_left fun _ => ?_
  omega

theorem sampleOf_of_passes {raw : List UInt8} (h : e.Passes (e.sampleValue raw)) :
    e.sampleOf raw = some (((e.sampleValue raw : Int) + 1) ^ 2 % e.modulus) := by
  obtain ⟨hle, hgcd⟩ := (passes_iff raw).mp h
  refine sampleOf_eq_some_iff.mpr ⟨hle, hgcd, ?_⟩
  rw [Nat.cast_add, Nat.cast_one, add_comm (1 : Int)]

theorem sampleOf_of_not_passes {raw : List UInt8} (h : ¬ e.Passes (e.sampleValue raw)) :
    e.sampleOf raw = none := by
  rw [passes_iff] at h
  exact if_neg h

/-! One attempt either ends the search or is forgotten. -/

theorem drawn_spend (e : Engine) (s : Source) (i : Nat) :
    e.drawn (s.spend e.sampleBytes e.sampleCalls) i = e.drawn s (i + 1) := by
  rw [drawn, Source.block_spend, drawn]

theorem randomElement_of_passes (hs : s.Grants e.sampleBytes e.sampleCalls)
    (h : e.Passes (e.drawn s 0)) :
    e.randomElement s = (.ok (((e.drawn s 0 : Int) + 1) ^ 2 % e.modulus),
      s.spend e.sampleBytes e.sampleCalls) := by
  rw [drawn, Source.block_zero] at h ⊢
  rw [randomElement_of_grants hs, sampleOf_of_passes h]

theorem randomElement_of_not_passes (hs : s.Grants e.sampleBytes e.sampleCalls)
    (h : ¬ e.Passes (e.drawn s 0)) :
    e.randomElement s = e.randomElement (s.spend e.sampleBytes e.sampleCalls) := by
  rw [drawn, Source.block_zero] at h
  rw [randomElement_of_grants hs, sampleOf_of_not_passes h]

/-- Refusals at the front of the stream are refusals one block later. -/
theorem refused_succ (h0 : ¬ e.Passes (e.drawn s 0))
    (h : ∀ i < k, ¬ e.Passes (e.drawn (s.spend e.sampleBytes e.sampleCalls) i)) :
    ∀ i < k + 1, ¬ e.Passes (e.drawn s i) := by
  intro i hi
  cases i with
  | zero => exact h0
  | succ i =>
      rw [← drawn_spend]
      exact h i (Nat.lt_of_succ_lt_succ hi)

theorem FirstPass.succ (h0 : ¬ e.Passes (e.drawn s 0))
    (h : e.FirstPass (s.spend e.sampleBytes e.sampleCalls) k y) :
    e.FirstPass s (k + 1) y := by
  rcases h with ⟨hrefused, hpasses, hsquare⟩
  rw [drawn_spend] at hpasses hsquare
  exact ⟨refused_succ h0 hrefused, hpasses, hsquare⟩

def afterAttempts (e : Engine) (s : Source) (k : Nat) : Source :=
  s.spend (k * e.sampleBytes) (k * e.sampleCalls)

theorem afterAttempts_succ (e : Engine) (s : Source) (k : Nat) :
    e.afterAttempts (s.spend e.sampleBytes e.sampleCalls) k = e.afterAttempts s (k + 1) := by
  rw [afterAttempts, Source.spend_spend, afterAttempts, Nat.add_mul, Nat.add_mul, Nat.one_mul,
    Nat.one_mul, Nat.add_comm e.sampleBytes, Nat.add_comm e.sampleCalls]

def GrantsAttempts (e : Engine) (s : Source) (k : Nat) : Prop :=
  s.Grants (k * e.sampleBytes) (k * e.sampleCalls)

theorem GrantsAttempts.mono {j : Nat} (h : e.GrantsAttempts s k) (hj : j ≤ k) :
    e.GrantsAttempts s j :=
  Source.Grants.mono h (Nat.mul_le_mul_right _ hj) (Nat.mul_le_mul_right _ hj)

theorem sampleCalls_pos (e : Engine) : 0 < e.sampleCalls := by
  unfold sampleCalls Draw.callCount
  split_ifs
  · exact Nat.one_pos
  · exact Nat.two_pos

/-- **How a search ends.** It returns what the first attempt that passes makes of
its number, or the source is exhausted before any attempt has passed. The
induction is on the calls that are left, of which every attempt uses up some. -/
theorem randomElement_ends (e : Engine) (s : Source) :
    (∃ k y, e.GrantsAttempts s (k + 1) ∧ e.FirstPass s k y ∧
      e.randomElement s = (.ok y, e.afterAttempts s (k + 1))) ∨
    ∃ k m c, ¬ e.GrantsAttempts s (k + 1) ∧ (∀ i < k, ¬ e.Passes (e.drawn s i)) ∧
      m < e.sampleBytes ∧
      e.randomElement s = (.error .sourceExhausted, (e.afterAttempts s k).spend m c) := by
  induction hc : s.callsLeft using Nat.strong_induction_on generalizing s with
  | h c ih =>
      by_cases hs : s.Grants e.sampleBytes e.sampleCalls
      · by_cases h0 : e.Passes (e.drawn s 0)
        · refine Or.inl ⟨0, _, ?_, ⟨?_, h0, rfl⟩, ?_⟩
          · simpa [GrantsAttempts] using hs
          · intro i hi
            exact absurd hi (Nat.not_lt_zero i)
          · rw [randomElement_of_passes hs h0]
            simp [afterAttempts]
        · have hless : (s.spend e.sampleBytes e.sampleCalls).callsLeft < c := by
            have hpos := e.sampleCalls_pos
            rcases hs with ⟨-, hcalls⟩
            simp only [Source.callsLeft, Source.spend] at hc ⊢
            omega
          rw [randomElement_of_not_passes hs h0]
          rcases ih _ hless _ rfl with
            ⟨k, y, hgrants, hfirst, hrun⟩ | ⟨k, m, c', hgrants, hrefused, hm, hrun⟩
          · refine Or.inl ⟨k + 1, y, Source.grants_spend_iff.mp hgrants, hfirst.succ h0, ?_⟩
            rw [hrun, afterAttempts_succ]
          · refine Or.inr ⟨k + 1, m, c', ?_, refused_succ h0 hrefused, hm, ?_⟩
            · intro h
              exact hgrants (Source.grants_spend_iff.mpr h)
            · rw [hrun, afterAttempts_succ]
      · obtain ⟨m, c', hm, hrun⟩ := randomElement_cut_short hs
        refine Or.inr ⟨0, m, c', ?_, ?_, hm, ?_⟩
        · simpa [GrantsAttempts] using hs
        · intro i hi
          exact absurd hi (Nat.not_lt_zero i)
        · rw [hrun]
          simp [afterAttempts, Source.spend]

/-- **What a search returns**, and what it leaves of the source. -/
theorem randomElement_eq_ok_iff {s' : Source} :
    e.randomElement s = (.ok y, s') ↔
      ∃ k, e.GrantsAttempts s (k + 1) ∧ e.FirstPass s k y ∧
        s' = e.afterAttempts s (k + 1) := by
  rcases randomElement_ends e s with
    ⟨k, x, hgrants, hfirst, hrun⟩ | ⟨k, m, c, hgrants, hrefused, -, hrun⟩
  · rw [hrun]
    constructor
    · rintro ⟨⟩
      exact ⟨k, hgrants, hfirst, rfl⟩
    · rintro ⟨j, -, hfirst', rfl⟩
      obtain ⟨rfl, rfl⟩ := hfirst.unique hfirst'
      rfl
  · rw [hrun]
    constructor
    · rintro ⟨⟩
    · rintro ⟨j, hgrants', hfirst', -⟩
      have hj : j < k := by
        by_contra hle
        exact hgrants (hgrants'.mono (Nat.succ_le_succ (Nat.le_of_not_lt hle)))
      exact absurd hfirst'.passes (hrefused j hj)

/-- **When a search fails.** Only the source can stop it, after some whole attempts none of
which passed and before another one was complete. -/
theorem randomElement_error {f : Fault} {s' : Source} (h : e.randomElement s = (.error f, s')) :
    f = .sourceExhausted ∧ ∃ k, ¬ e.GrantsAttempts s (k + 1) ∧
      (∀ i < k, ¬ e.Passes (e.drawn s i)) ∧
      s.bytesUsed + k * e.sampleBytes ≤ s'.bytesUsed ∧
      s'.bytesUsed < s.bytesUsed + (k + 1) * e.sampleBytes := by
  rcases randomElement_ends e s with
    ⟨k, x, -, -, hrun⟩ | ⟨k, m, c, hgrants, hrefused, hm, hrun⟩
  · rw [hrun] at h
    cases h
  · rw [hrun] at h
    obtain ⟨hf, rfl⟩ := Prod.mk.inj h
    obtain rfl := Except.error.inj hf
    refine ⟨rfl, k, hgrants, hrefused, ?_, ?_⟩
    · exact Nat.le_add_right _ _
    · show s.bytesUsed + k * e.sampleBytes + m < _
      rw [Nat.add_mul, Nat.one_mul, ← Nat.add_assoc]
      exact Nat.add_lt_add_left hm _

/-! ## What is returned -/

theorem FirstPass.mem_unitSquares (h : e.FirstPass s k y) : y ∈ unitSquares e.modulus :=
  ⟨_, h.passes.2, h.square⟩

theorem unit_of_mem_unitSquares (hy : y ∈ unitSquares e.modulus) :
    0 < y ∧ y < e.modulus ∧ Int.gcd y e.modulus = 1 := by
  obtain ⟨z, hz, rfl⟩ := hy
  have hone : 1 < e.modulus := e.publicKey.one_lt
  have hgcd : Int.gcd (z ^ 2 % e.modulus) e.modulus = 1 := by
    rw [Int.gcd_emod, ← Int.isCoprime_iff_gcd_eq_one]
    exact (Int.isCoprime_iff_gcd_eq_one.mpr hz).pow_left
  refine ⟨?_, Int.emod_lt_of_pos _ e.modulus_pos, hgcd⟩
  rcases (Int.emod_nonneg (z ^ 2) e.modulus_pos.ne').lt_or_eq with h | h
  · exact h
  · rw [← h, Int.gcd_zero_left] at hgcd
    omega

/-- The search is two loops: numbers below the modulus are drawn, each by a loop of its own,
until one is a unit. -/
theorem randomElement_eq_chooseOfRange (e : Engine) (s : Source) :
    e.randomElement s = (Draw.chooseOfRange 1 (e.modulus.toNat - 2)
      (fun z => z.gcd e.modulus.toNat = 1) >>= fun z =>
        (liftM (power z 2 e.modulus) : Draw Int)) s := by
  rw [randomElement, Stateful.bind_apply, Stateful.bind_apply, Draw.chooseOfRange_eq_choose]

theorem randomElement_congr {e' : Engine} (h : e'.modulus = e.modulus) :
    e'.randomElement s = e.randomElement s := by
  rw [randomElement_eq, randomElement_eq, h]

/-- **Random elements are legitimate.** Two loops, one inside the other, take blocks of equally
many bytes off the source, as many as it takes to find a number whose successor is a unit below
the modulus. The answer is the square of that unit, and nothing else ends the search but a source
that is used up. What the engine knows besides the modulus makes no difference. Every answer is a
unit and the square of a unit; an engine without the factors leaves it open, and one with prime
factors confirms and inverts it. -/
theorem randomElement_legitimate (e : Engine) (s : Source) :
    e.randomElement s = (Draw.chooseOfRange 1 (e.modulus.toNat - 2)
      (fun z => z.gcd e.modulus.toNat = 1) >>= fun z =>
        (liftM (power z 2 e.modulus) : Draw Int)) s ∧
    e.sampleBytes = (bitLength (e.modulus - 2).toNat + 7) / 8 ∧
    (∀ y s', e.randomElement s = (.ok y, s') ↔
      ∃ k, e.GrantsAttempts s (k + 1) ∧ e.FirstPass s k y ∧
        s' = e.afterAttempts s (k + 1)) ∧
    (∀ f s', e.randomElement s = (.error f, s') →
      f = .sourceExhausted ∧ ∃ k, ¬ e.GrantsAttempts s (k + 1) ∧
        (∀ i < k, ¬ e.Passes (e.drawn s i)) ∧
        s.bytesUsed + k * e.sampleBytes ≤ s'.bytesUsed ∧
        s'.bytesUsed < s.bytesUsed + (k + 1) * e.sampleBytes) ∧
    (∀ e' : Engine, e'.modulus = e.modulus → e'.randomElement s = e.randomElement s) ∧
    ∀ y s', e.randomElement s = (.ok y, s') →
      (0 < y ∧ y < e.modulus ∧ Int.gcd y e.modulus = 1 ∧ y ∈ unitSquares e.modulus) ∧
      e.publicOnly.check y = .ok .unknown ∧
      ∀ key : PrivateKey, key.n = e.modulus → key.p.toNat.Prime → key.q.toNat.Prime →
        key.engine.check y = .ok .valid ∧ ∃ x, key.engine.invert y = .ok x := by
  refine ⟨randomElement_eq_chooseOfRange e s, ?_, fun y s' => randomElement_eq_ok_iff,
    fun f s' => randomElement_error, fun e' => randomElement_congr, ?_⟩
  · have hone : 1 < e.modulus := e.publicKey.one_lt
    have hnat : e.modulus.toNat - 2 = (e.modulus - 2).toNat := by omega
    rw [sampleBytes, Draw.byteCount, sampleWidth, hnat]
  · intro y s' h
    obtain ⟨k, -, hfirst, -⟩ := randomElement_eq_ok_iff.mp h
    have hy := hfirst.mem_unitSquares
    obtain ⟨hpos, hlt, hgcd⟩ := unit_of_mem_unitSquares hy
    refine ⟨⟨hpos, hlt, hgcd, hy⟩, check_pub_of_mem_unitSquares ⟨hpos, hlt⟩ hy, ?_⟩
    intro key hn hp hq
    have : Fact key.p.toNat.Prime := ⟨hp⟩
    have : Fact key.q.toNat.Prime := ⟨hq⟩
    rw [← hn, ← PrivateKey.squares_eq_unitSquares] at hy
    exact ⟨check_of_mem_squares hy, _, invert_of_mem_squares hy⟩

def threeBytes : Source where
  byteAt := ByteStream.ofBytes #[255, 12, 2]
  byteLimit := 3
  callLimit := 6

/-- The first byte is too large for a number, the second one makes 7, which is no unit, and the
third one makes 2. -/
theorem randomElement_legitimate_third_attempt :
    sevenEleven.engine.randomElement threeBytes =
        (.ok 4, sevenEleven.engine.afterAttempts threeBytes 3) ∧
      Nat.Prime 7 ∧ Nat.Prime 11 ∧ sevenEleven.engine.check 4 = .ok .valid := by
  have h := randomElement_legitimate sevenEleven.engine threeBytes
  have hfirst : sevenEleven.engine.FirstPass threeBytes 2 4 :=
    ⟨by decide +kernel, by decide +kernel, by decide +kernel⟩
  have hgrants : sevenEleven.engine.GrantsAttempts threeBytes 3 :=
    ⟨by decide +kernel, by decide +kernel⟩
  have hrun := (h.2.2.1 4 _).mpr ⟨2, hgrants, hfirst, rfl⟩
  have h7 : Nat.Prime 7 := by decide
  have h11 : Nat.Prime 11 := by decide
  exact ⟨hrun, h7, h11, ((h.2.2.2.2.2 4 _ hrun).2.2 sevenEleven rfl h7 h11).1⟩

end Engine

end Blum
