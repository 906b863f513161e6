import Mathlib
import Blum.Proofs.Candidates
import Blum.Proofs.FourRoots
import Blum.Proofs.RangeDraws
import Blum.Proofs.RawBytes

/-!
# Random elements

One attempt at a random element turns a fixed number of raw bytes into a
number. If it is a unit below the modulus, its square is the answer; otherwise
the next attempt starts on the bytes that follow. An attempt is fair: each
number below the power of two is made of equally many byte strings, and each
square of a unit has four roots, so all squares of units are answers of equally
many byte strings and nothing else is an answer.
-/

namespace Blum

namespace Draw

variable {s : Source} {low span : Nat} {accept : Nat → Bool}

theorem attempt_of_grants
    (h : s.Grants (byteCount (bitLength span)) (callCount (bitLength span))) :
    attempt low span accept s =
      let v := ofRaw (bitLength span) (s.next (byteCount (bitLength span)))
      (.ok (if v ≤ span ∧ accept (low + v) then some (low + v) else none),
        s.spend (byteCount (bitLength span)) (callCount (bitLength span))) :=
  attempt_of_integer_ok (integer_of_grants h)

theorem attempt_of_not_grants
    (h : ¬ s.Grants (byteCount (bitLength span)) (callCount (bitLength span))) :
    ∃ m k, m ≤ (bitLength span - 1) / 8 ∧
      attempt low span accept s = (.error .sourceExhausted, s.spend m k) := by
  obtain ⟨m, k, hm, hs⟩ := integer_of_not_grants h
  exact ⟨m, k, hm, attempt_of_integer_error hs⟩

end Draw

namespace Engine

open PrivateKey

/-! ## One attempt -/

def sampleWidth (e : Engine) : Nat := bitLength (e.modulus.toNat - 2)

theorem sampleWidth_pos (e : Engine) : 0 < e.sampleWidth := by
  have hone : 1 < e.modulus := e.publicKey.one_lt
  have hodd : e.modulus % 2 = 1 := e.publicKey.odd
  rw [sampleWidth, bitLength, if_neg (by omega)]
  exact Nat.succ_pos _

def sampleBytes (e : Engine) : Nat := Draw.byteCount e.sampleWidth

def sampleCalls (e : Engine) : Nat := Draw.callCount e.sampleWidth

/-- The number that an attempt reads off its raw bytes. The candidate for a unit
is its successor. -/
def sampleValue (e : Engine) (raw : List UInt8) : Nat := Draw.ofRaw e.sampleWidth raw

/-- What an attempt makes of its raw bytes, if it succeeds. -/
def sampleOf (e : Engine) (raw : List UInt8) : Option Int :=
  if e.sampleValue raw ≤ e.modulus.toNat - 2 ∧
      Nat.gcd (1 + e.sampleValue raw) e.modulus.toNat = 1 then
    some (((1 + e.sampleValue raw : Nat) : Int) ^ 2 % e.modulus)
  else none

variable {e : Engine} {s : Source} {raw : List UInt8}

theorem randomElement_eq (e : Engine) (s : Source) :
    e.randomElement s = (Draw.choose 1 (e.modulus.toNat - 2)
      (fun z => z.gcd e.modulus.toNat = 1) >>= fun z =>
        (pure ((z : Int) ^ 2 % e.modulus) : Draw Int)) s := by
  rw [randomElement, Stateful.bind_apply, Stateful.bind_apply]
  rcases Draw.choose 1 (e.modulus.toNat - 2) _ s with ⟨f | z, s'⟩
  · rfl
  · show (liftM (power z 2 e.modulus) : Draw Int) s' = _
    rw [Stateful.lift_apply, power_of_pos e.modulus_pos (by decide)]
    rfl

/-- **An attempt follows its raw bytes.** It answers or the next one starts. -/
theorem randomElement_of_grants (h : s.Grants e.sampleBytes e.sampleCalls) :
    e.randomElement s =
      match e.sampleOf (s.next e.sampleBytes) with
      | some y => (.ok y, s.spend e.sampleBytes e.sampleCalls)
      | none => e.randomElement (s.spend e.sampleBytes e.sampleCalls) := by
  have hattempt : Draw.attempt 1 (e.modulus.toNat - 2)
      (fun z => z.gcd e.modulus.toNat = 1) s =
      (.ok (if e.sampleValue (s.next e.sampleBytes) ≤ e.modulus.toNat - 2 ∧
          Nat.gcd (1 + e.sampleValue (s.next e.sampleBytes)) e.modulus.toNat = 1 then
          some (1 + e.sampleValue (s.next e.sampleBytes)) else none),
        s.spend e.sampleBytes e.sampleCalls) := by
    rw [Draw.attempt_of_grants h]
    simp only [decide_eq_true_eq]
    rfl
  rw [randomElement_eq, Stateful.bind_apply, Draw.choose, Draw.untilSome_eq, hattempt,
    sampleOf]
  split_ifs
  · rfl
  · rw [randomElement_eq, Stateful.bind_apply, Draw.choose]

/-- An attempt that is cut short leaves a byte of its block or more. -/
theorem randomElement_cut_short (h : ¬ s.Grants e.sampleBytes e.sampleCalls) :
    ∃ m k, m < e.sampleBytes ∧
      e.randomElement s = (.error .sourceExhausted, s.spend m k) := by
  obtain ⟨m, k, hm, hs⟩ : ∃ m k, m ≤ (e.sampleWidth - 1) / 8 ∧
      Draw.attempt 1 (e.modulus.toNat - 2) (fun z => z.gcd e.modulus.toNat = 1) s =
        (.error .sourceExhausted, s.spend m k) :=
    Draw.attempt_of_not_grants h
  refine ⟨m, k, ?_, ?_⟩
  · have hpos := e.sampleWidth_pos
    unfold sampleBytes Draw.byteCount
    omega
  · rw [randomElement_eq, Stateful.bind_apply, Draw.choose, Draw.untilSome_eq, hs]

theorem randomElement_of_not_grants (h : ¬ s.Grants e.sampleBytes e.sampleCalls) :
    ∃ s', e.randomElement s = (.error .sourceExhausted, s') := by
  obtain ⟨m, k, -, hs⟩ := randomElement_cut_short h
  exact ⟨_, hs⟩

/-! ## What an attempt can answer -/

theorem sampleOf_eq_some_iff {y : Int} :
    e.sampleOf raw = some y ↔ e.sampleValue raw ≤ e.modulus.toNat - 2 ∧
      Nat.gcd (1 + e.sampleValue raw) e.modulus.toNat = 1 ∧
      ((1 + e.sampleValue raw : Nat) : Int) ^ 2 % e.modulus = y := by
  rw [sampleOf]
  split_ifs with h
  · rw [Option.some.injEq, ← and_assoc]
    exact (and_iff_right h).symm
  · refine iff_of_false (by simp) ?_
    rintro ⟨hle, hgcd, -⟩
    exact h ⟨hle, hgcd⟩

theorem sampleOf_eq_none_iff :
    e.sampleOf raw = none ↔ e.modulus.toNat - 2 < e.sampleValue raw ∨
      Nat.gcd (1 + e.sampleValue raw) e.modulus.toNat ≠ 1 := by
  rw [sampleOf, ite_eq_right_iff, ← not_le, ← not_and_or]
  simp

theorem gcd_modulus (e : Engine) (z : Nat) :
    Int.gcd z e.modulus = Nat.gcd z e.modulus.toNat := by
  conv_lhs => rw [← Int.toNat_of_nonneg e.modulus_pos.le]
  exact Int.gcd_natCast_natCast z _

theorem sampleOf_mem_unitSquares {y : Int} (h : e.sampleOf raw = some y) :
    y ∈ unitSquares e.modulus := by
  obtain ⟨-, hgcd, rfl⟩ := sampleOf_eq_some_iff.mp h
  exact ⟨_, (e.gcd_modulus _).trans hgcd, rfl⟩

theorem yields_randomElement (e : Engine) :
    e.randomElement.Yields (· ∈ unitSquares e.modulus) := by
  intro s
  rw [randomElement_eq]
  refine (Draw.yields_choose _ _ _).bind (fun z hz => Draw.yields_pure ?_) s
  exact ⟨z, (e.gcd_modulus z).trans (of_decide_eq_true hz.2.2), rfl⟩

/-! ## How many byte strings have an answer -/

section Prime

variable {key : PrivateKey} [Fact key.p.toNat.Prime] [Fact key.q.toNat.Prime]

/-- The byte strings with the answer `y` are those that stand for one of its roots. -/
theorem setOf_sampleOf (hn : e.modulus = key.n) {y : Int} (hy : y ∈ key.squares) :
    {raw | raw.length = e.sampleBytes ∧ e.sampleOf raw = some y} =
      {raw | raw.length = e.sampleBytes ∧
        ∃ σ, (key.rootWith y σ - 1).toNat = e.sampleValue raw} := by
  have hroot (z : Int) := exists_rootWith_iff (z := z) hy
  ext raw
  simp only [Set.mem_ofPred_eq, sampleOf_eq_some_iff]
  constructor
  · rintro ⟨hlen, hle, hgcd, hsq⟩
    have hone := key.one_lt
    rw [← gcd_modulus, hn] at hgcd
    rw [hn] at hle hsq
    obtain ⟨σ, hσ⟩ := (hroot (1 + e.sampleValue raw : Nat)).mpr
      ⟨by omega, by omega, hgcd, hsq⟩
    refine ⟨hlen, σ, ?_⟩
    omega
  · rintro ⟨hlen, σ, hv⟩
    obtain ⟨h₀, hlt, hgcd, hsq⟩ := (hroot _).mp ⟨σ, rfl⟩
    -- a root is not zero, so it is the successor of a number that can be drawn
    have hpos := pos_of_isCoprime_n h₀ (Int.isCoprime_iff_gcd_eq_one.mpr hgcd)
    have hz : ((1 + e.sampleValue raw : Nat) : Int) = key.rootWith y σ := by
      rw [← hv]
      omega
    rw [← gcd_modulus, hn, hz]
    exact ⟨hlen, by omega, hgcd, hsq⟩

/-- **All squares of units are equally likely.** Each is the answer of four
times as many byte strings as make one number. -/
theorem ncard_sampleOf (hn : e.modulus = key.n) {y : Int} (hy : y ∈ key.squares) :
    {raw | raw.length = e.sampleBytes ∧ e.sampleOf raw = some y}.ncard =
      4 * 2 ^ (8 * e.sampleBytes - e.sampleWidth) := by
  have hroot (σ : Selector × Selector) := (exists_rootWith_iff hy).mp ⟨σ, rfl⟩
  have hpos (σ : Selector × Selector) : 0 < key.rootWith y σ :=
    pos_of_isCoprime_n (hroot σ).1 (Int.isCoprime_iff_gcd_eq_one.mpr (hroot σ).2.2.1)
  rw [setOf_sampleOf hn hy]
  refine Draw.ncard_ofRaw_of_injective ?_ ?_
  · intro σ τ h
    change (key.rootWith y σ - 1).toNat = (key.rootWith y τ - 1).toNat at h
    have := hpos σ
    have := hpos τ
    exact rootWith_injective hy (by omega)
  · intro σ
    refine lt_of_le_of_lt ?_ (lt_two_pow_bitLength (e.modulus.toNat - 2))
    have := (hroot σ).2.1
    omega

end Prime

/-- **Random elements are uniform.** Let the modulus be the product of two
different primes that are 3 modulo 4. An attempt either answers or hands over
to the next one, and it answers unless its number is too large or no unit. Of
all byte strings that one attempt can see, every square of a unit is the answer
of the same number, and nothing else is the answer of any. -/
theorem randomElement_uniform {p q : Nat} (hp : p.Prime) (hq : q.Prime) (hpq : p ≠ q)
    (hp4 : p % 4 = 3) (hq4 : q % 4 = 3) (e : Engine) (hn : e.modulus = p * q) :
    (∀ s : Source, s.Grants e.sampleBytes e.sampleCalls →
      e.randomElement s =
        match e.sampleOf (s.next e.sampleBytes) with
        | some y => (.ok y, s.spend e.sampleBytes e.sampleCalls)
        | none => e.randomElement (s.spend e.sampleBytes e.sampleCalls)) ∧
    (∀ s : Source, ¬ s.Grants e.sampleBytes e.sampleCalls →
      ∃ s', e.randomElement s = (.error .sourceExhausted, s')) ∧
    (∀ raw, e.sampleOf raw = none ↔
      p * q - 2 < e.sampleValue raw ∨ Nat.gcd (1 + e.sampleValue raw) (p * q) ≠ 1) ∧
    {raw : List UInt8 | raw.length = e.sampleBytes}.ncard = 256 ^ e.sampleBytes ∧
    (∀ y ∈ unitSquares (p * q),
      {raw | raw.length = e.sampleBytes ∧ e.sampleOf raw = some y}.ncard =
        4 * 2 ^ (8 * e.sampleBytes - e.sampleWidth)) ∧
    ∀ y ∉ unitSquares (p * q), ∀ raw, e.sampleOf raw ≠ some y := by
  obtain ⟨key, -, hkp, hkq⟩ := ofFactors_of_primes hp hq hpq hp4 hq4 .plus .plus
  have : Fact key.p.toNat.Prime := ⟨by rwa [hkp, Int.toNat_natCast]⟩
  have : Fact key.q.toNat.Prime := ⟨by rwa [hkq, Int.toNat_natCast]⟩
  have hkey : e.modulus = key.n := by
    rw [hn, ← key.product, hkp, hkq]
  have hnat : e.modulus.toNat = p * q := by
    rw [hn, ← Nat.cast_mul, Int.toNat_natCast]
  refine ⟨fun s => randomElement_of_grants, fun s => randomElement_of_not_grants,
    fun raw => ?_, ncard_length_eq _, fun y hy => ?_, fun y hy raw hraw => ?_⟩
  · rw [sampleOf_eq_none_iff, hnat]
  · rw [← hn, hkey, ← squares_eq_unitSquares] at hy
    exact ncard_sampleOf hkey hy
  · exact hy (hn ▸ sampleOf_mem_unitSquares hraw)

theorem randomElement_uniform_seventySeven :
    Nat.Prime 7 ∧ Nat.Prime 11 ∧ sevenEleven.engine.modulus = (7 : Nat) * (11 : Nat) ∧
      4 ∈ unitSquares ((7 : Nat) * (11 : Nat)) ∧
      {raw | raw.length = 1 ∧ sevenEleven.engine.sampleOf raw = some 4}.ncard = 8 := by
  have h4 : 4 ∈ unitSquares ((7 : Nat) * (11 : Nat)) := ⟨2, by decide, by decide⟩
  have h := randomElement_uniform (p := 7) (q := 11) (by decide) (by decide) (by decide)
    (by decide) (by decide) sevenEleven.engine rfl
  exact ⟨by decide, by decide, rfl, h4, h.2.2.2.2.1 4 h4⟩

end Engine

end Blum
