import Mathlib
import Blum.Proofs.Candidates
import Blum.Proofs.RawBytes

/-!
# How candidates are drawn

A candidate is a number below half of the next power of two with four bits set
on it. The mask covers the two low bits and the top one of the number, and the
remaining bits stay as they are drawn, so every candidate is made of eight
numbers: two for the top bit and four for the low ones. Each number is made of
equally many byte strings, and so is each candidate. What has the four bits set
is reached, and nothing is preferred.
-/

namespace Blum

namespace Generate

/-! ## One draw -/

/-- How many bytes the draw of a candidate takes. The top bit is not drawn. -/
def candidateBytes (bits : Nat) : Nat := Draw.byteCount (bits - 1)

def candidateCalls (bits : Nat) : Nat := Draw.callCount (bits - 1)

/-- A number that was drawn, with the top bit and the mask on it. -/
def masked (bits v : Nat) : Nat := v ||| 1 <<< (bits - 1) ||| mask bits

def candidateOf (bits : Nat) (raw : List UInt8) : Nat :=
  masked bits (Draw.ofRaw (bits - 1) raw)

/-- The bits that the mask leaves as they are. -/
def middle (bits v : Nat) : Nat := v % 2 ^ (bits - 2) / 4

/-- The numbers of a size with the two top bits and the two low bits set. -/
def candidates (bits : Nat) : Set Nat :=
  {c | 3 * 2 ^ (bits - 2) ≤ c ∧ c < 2 ^ bits ∧ c % 4 = 3}

section Draw

variable {bits : Nat} {s : Source}

theorem candidate_of_grants (h : s.Grants (candidateBytes bits) (candidateCalls bits)) :
    candidate bits s = (.ok (candidateOf bits (s.next (candidateBytes bits))),
      s.spend (candidateBytes bits) (candidateCalls bits)) := by
  rw [candidate, Stateful.bind_apply, Draw.exactInteger, Stateful.bind_apply,
    Draw.integer_of_grants h]
  rfl

theorem candidate_of_not_grants
    (h : ¬ s.Grants (candidateBytes bits) (candidateCalls bits)) :
    ∃ s', candidate bits s = (.error .sourceExhausted, s') := by
  obtain ⟨m, k, -, hs⟩ := Draw.integer_of_not_grants h
  refine ⟨s.spend m k, ?_⟩
  rw [candidate, Stateful.bind_apply, Draw.exactInteger, Stateful.bind_apply, hs]

end Draw

/-! ## The mask as arithmetic -/

theorem or_three (w : Nat) : w ||| 3 = 4 * (w / 4) + 3 := by
  have hdiv : (w ||| 3) / 2 ^ 2 = w / 2 ^ 2 ||| 3 / 2 ^ 2 := Nat.or_div_two_pow
  have hmod : (w ||| 3) % 2 ^ 2 = w % 2 ^ 2 ||| 3 % 2 ^ 2 := Nat.or_mod_two_pow
  have hlow : ∀ r < 4, r ||| 3 = 3 := by decide
  have hthree := hlow (w % 4) (Nat.mod_lt w (by decide))
  norm_num at hdiv hmod
  omega

section Mask

variable {bits : Nat} (hbits : 4 ≤ bits)
include hbits

theorem two_pow_eq : 2 ^ bits = 4 * 2 ^ (bits - 2) ∧ 2 ^ (bits - 1) = 2 * 2 ^ (bits - 2) := by
  obtain ⟨k, rfl⟩ : ∃ k, bits = k + 2 := ⟨bits - 2, by omega⟩
  rw [Nat.add_sub_cancel, show k + 2 - 1 = k + 1 by omega, pow_add, pow_succ]
  omega

theorem four_dvd_two_pow : 4 ∣ 2 ^ (bits - 2) :=
  pow_dvd_pow 2 (by omega : 2 ≤ bits - 2)

theorem masked_div {v : Nat} (hv : v < 2 ^ (bits - 1)) :
    masked bits v / 2 ^ (bits - 2) = 3 := by
  have hpos := Nat.two_pow_pos (bits - 2)
  have htop : 1 <<< (bits - 1) / 2 ^ (bits - 2) = 2 := by
    rw [Nat.one_shiftLeft, (two_pow_eq hbits).2, Nat.mul_div_cancel _ hpos]
  have hmask : 3 <<< (bits - 2) / 2 ^ (bits - 2) = 3 := by
    rw [Nat.shiftLeft_eq, Nat.mul_div_cancel _ hpos]
  have hlow : 3 / 2 ^ (bits - 2) = 0 := by
    have := Nat.le_of_dvd hpos (four_dvd_two_pow hbits)
    exact Nat.div_eq_of_lt (by omega)
  have hor : ∀ b < 2, b ||| 2 ||| (3 ||| 0) = 3 := by decide
  rw [masked, mask, Nat.or_div_two_pow, Nat.or_div_two_pow, Nat.or_div_two_pow, htop, hmask,
    hlow]
  apply hor
  rw [Nat.div_lt_iff_lt_mul hpos, ← (two_pow_eq hbits).2]
  exact hv

theorem masked_mod (v : Nat) :
    masked bits v % 2 ^ (bits - 2) = v % 2 ^ (bits - 2) ||| 3 := by
  have hpos := Nat.two_pow_pos (bits - 2)
  have htop : 1 <<< (bits - 1) % 2 ^ (bits - 2) = 0 := by
    rw [Nat.one_shiftLeft, (two_pow_eq hbits).2, Nat.mul_mod_left]
  have hmask : 3 <<< (bits - 2) % 2 ^ (bits - 2) = 0 := by
    rw [Nat.shiftLeft_eq, Nat.mul_mod_left]
  have hlow : 3 % 2 ^ (bits - 2) = 3 := by
    have := Nat.le_of_dvd hpos (four_dvd_two_pow hbits)
    exact Nat.mod_eq_of_lt (by omega)
  rw [masked, mask, Nat.or_mod_two_pow, Nat.or_mod_two_pow, Nat.or_mod_two_pow, htop, hmask,
    hlow, Nat.or_zero, Nat.zero_or]

/-- **The mask keeps the bits in the middle** and sets the others. -/
theorem masked_eq {v : Nat} (hv : v < 2 ^ (bits - 1)) :
    masked bits v = 3 * 2 ^ (bits - 2) + (4 * middle bits v + 3) := by
  calc masked bits v
      = 2 ^ (bits - 2) * (masked bits v / 2 ^ (bits - 2)) +
          masked bits v % 2 ^ (bits - 2) := (Nat.div_add_mod _ _).symm
    _ = 2 ^ (bits - 2) * 3 + (4 * middle bits v + 3) := by
        rw [masked_div hbits hv, masked_mod hbits, or_three, middle]
    _ = 3 * 2 ^ (bits - 2) + (4 * middle bits v + 3) := by rw [mul_comm]

theorem four_mul_middle_le (v : Nat) : 4 * middle bits v + 4 ≤ 2 ^ (bits - 2) := by
  obtain ⟨k, hk⟩ := four_dvd_two_pow hbits
  have hlt := Nat.mod_lt v (Nat.two_pow_pos (bits - 2))
  rw [middle]
  omega

theorem masked_mem_candidates {v : Nat} (hv : v < 2 ^ (bits - 1)) :
    masked bits v ∈ candidates bits := by
  obtain ⟨k, hk⟩ := four_dvd_two_pow hbits
  have hmid := four_mul_middle_le hbits v
  have hpow := (two_pow_eq hbits).1
  rw [masked_eq hbits hv]
  refine ⟨?_, ?_, ?_⟩ <;> omega

theorem eq_of_mem_candidates {c : Nat} (hc : c ∈ candidates bits) :
    c = 3 * 2 ^ (bits - 2) + (4 * middle bits c + 3) := by
  obtain ⟨hle, hlt, hmod⟩ := hc
  obtain ⟨k, hk⟩ := four_dvd_two_pow hbits
  obtain ⟨d, rfl⟩ := Nat.exists_eq_add_of_le hle
  rw [(two_pow_eq hbits).1] at hlt
  have hd : (3 * 2 ^ (bits - 2) + d) % 2 ^ (bits - 2) = d := by
    rw [Nat.mul_add_mod_self_right]
    exact Nat.mod_eq_of_lt (by omega)
  rw [middle, hd]
  omega

end Mask

/-! ## Eight numbers to a candidate -/

/-- The number with the middle of `c` and any bits where the mask will be. -/
def filled (bits c : Nat) (σ : Fin 2 × Fin 4) : Nat :=
  σ.1 * 2 ^ (bits - 2) + (4 * middle bits c + σ.2)

section Filled

variable {bits c : Nat} (hbits : 4 ≤ bits)
include hbits

theorem filled_lt (σ : Fin 2 × Fin 4) : filled bits c σ < 2 ^ (bits - 1) := by
  have hmid := four_mul_middle_le hbits c
  have hpow := (two_pow_eq hbits).2
  rcases σ with ⟨a, b⟩
  have hb := b.isLt
  rw [filled]
  fin_cases a <;> simp <;> omega

theorem filled_mod (σ : Fin 2 × Fin 4) :
    filled bits c σ % 2 ^ (bits - 2) = 4 * middle bits c + σ.2 := by
  have hmid := four_mul_middle_le hbits c
  have hb := σ.2.isLt
  rw [filled, Nat.mul_add_mod_self_right]
  exact Nat.mod_eq_of_lt (by omega)

theorem masked_filled (hc : c ∈ candidates bits) (σ : Fin 2 × Fin 4) :
    masked bits (filled bits c σ) = c := by
  have hmid : middle bits (filled bits c σ) = middle bits c := by
    have hb := σ.2.isLt
    rw [middle, filled_mod hbits]
    omega
  rw [masked_eq hbits (filled_lt hbits σ), hmid, ← eq_of_mem_candidates hbits hc]

theorem filled_injective : Function.Injective (filled bits c) := by
  intro σ τ h
  have hlow : (σ.2 : Nat) = τ.2 := by
    have hmod := congrArg (· % 2 ^ (bits - 2)) h
    simp only [filled_mod hbits] at hmod
    omega
  have htop : (σ.1 : Nat) = τ.1 := by
    rw [filled, filled, hlow] at h
    exact Nat.eq_of_mul_eq_mul_right (Nat.two_pow_pos (bits - 2)) (Nat.add_right_cancel h)
  exact Prod.ext (Fin.ext htop) (Fin.ext hlow)

/-- **The numbers behind a candidate** are the ones with its middle. -/
theorem exists_filled_iff (hc : c ∈ candidates bits) {v : Nat} :
    (∃ σ, filled bits c σ = v) ↔ v < 2 ^ (bits - 1) ∧ masked bits v = c := by
  constructor
  · rintro ⟨σ, rfl⟩
    exact ⟨filled_lt hbits σ, masked_filled hbits hc σ⟩
  · rintro ⟨hlt, hv⟩
    have hpos := Nat.two_pow_pos (bits - 2)
    have hmid : middle bits c = middle bits v := by
      have hcand := (masked_eq hbits hlt).symm.trans
        (hv.trans (eq_of_mem_candidates hbits hc))
      omega
    rw [(two_pow_eq hbits).2] at hlt
    refine ⟨(⟨v / 2 ^ (bits - 2), Nat.div_lt_of_lt_mul (by omega)⟩,
      ⟨v % 2 ^ (bits - 2) % 4, Nat.mod_lt _ (by decide)⟩), ?_⟩
    calc v / 2 ^ (bits - 2) * 2 ^ (bits - 2) +
          (4 * middle bits c + v % 2 ^ (bits - 2) % 4)
        = 2 ^ (bits - 2) * (v / 2 ^ (bits - 2)) + v % 2 ^ (bits - 2) := by
          rw [hmid, middle, Nat.div_add_mod, mul_comm]
      _ = v := Nat.div_add_mod _ _

end Filled

/-! ## All byte strings of one draw -/

section Count

variable {bits : Nat} (hbits : 4 ≤ bits)
include hbits

theorem image_candidateOf :
    candidateOf bits '' {raw | raw.length = candidateBytes bits} = candidates bits := by
  ext c
  constructor
  · rintro ⟨raw, hlen, rfl⟩
    exact masked_mem_candidates hbits (Draw.ofRaw_lt hlen)
  · intro hc
    obtain ⟨raw, hlen, hraw⟩ :=
      Draw.exists_ofRaw_eq (filled_lt hbits (c := c) (0, 0))
    refine ⟨raw, hlen, ?_⟩
    rw [candidateOf, hraw, masked_filled hbits hc]

theorem ncard_candidateOf {c : Nat} (hc : c ∈ candidates bits) :
    {raw | raw.length = candidateBytes bits ∧ candidateOf bits raw = c}.ncard =
      2 ^ (8 * candidateBytes bits + 4 - bits) := by
  have hset : {raw | raw.length = candidateBytes bits ∧ candidateOf bits raw = c} =
      {raw | raw.length = candidateBytes bits ∧
        ∃ σ, filled bits c σ = Draw.ofRaw (bits - 1) raw} := by
    ext raw
    refine and_congr_right fun hlen => ?_
    rw [exists_filled_iff hbits hc, and_iff_right (Draw.ofRaw_lt hlen), candidateOf]
  have hbytes : bits - 1 ≤ 8 * candidateBytes bits := by
    rw [candidateBytes, Draw.byteCount]
    omega
  rw [hset, candidateBytes,
    Draw.ncard_ofRaw_of_injective (filled_injective hbits) (filled_lt hbits), ← candidateBytes]
  calc 2 ^ 3 * 2 ^ (8 * candidateBytes bits - (bits - 1))
      = 2 ^ (3 + (8 * candidateBytes bits - (bits - 1))) := (pow_add 2 3 _).symm
    _ = 2 ^ (8 * candidateBytes bits + 4 - bits) := by
        congr 1
        omega

end Count

/-- **Candidates are uniform.** A draw turns the next bytes of its source into a candidate, unless
the source refuses them. Of all byte strings that it can see, every number of the size with the
two top bits and the two low bits set is made of the same number, and nothing else is made of
any. -/
theorem candidate_uniform {bits : Nat} (hbits : 4 ≤ bits) :
    (∀ s : Source, s.Grants (candidateBytes bits) (candidateCalls bits) →
      candidate bits s = (.ok (candidateOf bits (s.next (candidateBytes bits))),
        s.spend (candidateBytes bits) (candidateCalls bits))) ∧
    (∀ s : Source, ¬ s.Grants (candidateBytes bits) (candidateCalls bits) →
      ∃ s', candidate bits s = (.error .sourceExhausted, s')) ∧
    {raw : List UInt8 | raw.length = candidateBytes bits}.ncard = 256 ^ candidateBytes bits ∧
    candidateOf bits '' {raw | raw.length = candidateBytes bits} =
      {c | 3 * 2 ^ (bits - 2) ≤ c ∧ c < 2 ^ bits ∧ c % 4 = 3} ∧
    ∀ c, 3 * 2 ^ (bits - 2) ≤ c → c < 2 ^ bits → c % 4 = 3 →
      {raw | raw.length = candidateBytes bits ∧ candidateOf bits raw = c}.ncard =
        2 ^ (8 * candidateBytes bits + 4 - bits) := by
  refine ⟨fun s => candidate_of_grants, fun s => candidate_of_not_grants, ncard_length_eq _,
    image_candidateOf hbits, ?_⟩
  intro c hle hlt hmod
  exact ncard_candidateOf hbits ⟨hle, hlt, hmod⟩

theorem candidate_uniform_eight_bits :
    4 ≤ 8 ∧ (3 * 2 ^ 6 ≤ 199 ∧ 199 < 2 ^ 8 ∧ 199 % 4 = 3) ∧ candidateOf 8 [142] = 199 ∧
      {raw | raw.length = 1 ∧ candidateOf 8 raw = 199}.ncard = 16 := by
  have hcount := (candidate_uniform (by decide : 4 ≤ 8)).2.2.2.2 199
  refine ⟨by decide, by decide, by decide +kernel, ?_⟩
  exact hcount (by decide) (by decide) (by decide)

end Generate

end Blum
