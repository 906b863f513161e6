import Mathlib
import Blum.Arith.Mixed

/-!
# Integers as doubles

An integer that becomes a double is rounded to 53 bits, to the nearest such
number and to the even one of two that are equally near. Rounding can carry into
one more place. The double is infinite if the last of the 53 bits is then worth
`2 ^ 972` or more, and of all integers this happens to those that `doubleBound`
bounds from below.

Large integers are rounded once. Those below `2 ^ 53` need no rounding, but they
are multiplied by a double that is 1, so they are rounded without effect.
-/

namespace Blum.Double

open Float.Model Float.Model.UnpackedFloat

/-! ## Rounding -/

theorem mantissa_shiftRight (em : ExtendedMantissa) (k : Nat) :
    (em >>> k).mantissa = em.mantissa / 2 ^ k := by
  induction k with
  | zero => exact (Nat.div_one _).symm
  | succ k ih =>
      show (em >>> k).mantissa / 2 = em.mantissa / 2 ^ (k + 1)
      rw [ih, Nat.div_div_eq_div_mul, ← Nat.pow_succ]

theorem roundedMantissa_bounds (em : ExtendedMantissa) :
    em.mantissa ≤ em.roundedMantissa ∧ em.roundedMantissa ≤ em.mantissa + 1 := by
  rcases em with ⟨m, _ | _, _ | _⟩ <;>
    simp only [ExtendedMantissa.roundedMantissa, ExtendedMantissa.accuracy,
      Accuracy.roundToNearestEven] <;> omega

/-- An odd mantissa is rounded by the next bit alone, since a tie goes to the even one. -/
theorem roundedMantissa_of_odd (em : ExtendedMantissa) (h : em.mantissa % 2 = 1) :
    em.roundedMantissa = em.mantissa + if em.roundBit then 1 else 0 := by
  rcases em with ⟨m, _ | _, _ | _⟩ <;>
    simp only [ExtendedMantissa.roundedMantissa, ExtendedMantissa.accuracy,
      Accuracy.roundToNearestEven] at h ⊢ <;> simp [h]

/-- The number `m` without its last `k` bits, and what is remembered of them. -/
def withoutBits (m k : Nat) : ExtendedMantissa :=
  ExtendedMantissa.ofMantissaAndAccuracy m .exact >>> k

theorem mantissa_withoutBits (m k : Nat) : (withoutBits m k).mantissa = m / 2 ^ k :=
  mantissa_shiftRight _ k

/-- The first of the bits that are dropped is the last one to go. -/
theorem roundBit_withoutBits (m k : Nat) :
    (withoutBits m (k + 1)).roundBit = (m / 2 ^ k % 2 != 0) := by
  show ((withoutBits m k).mantissa % 2 != 0) = _
  rw [mantissa_withoutBits]

section Bits

variable {m k : Nat} (hm : m.log2 = 52 + k)
include hm

theorem div_bounds : 2 ^ 52 ≤ m / 2 ^ k ∧ m / 2 ^ k < 2 ^ 53 := by
  have h0 : m ≠ 0 := by
    rintro rfl
    rw [Nat.log2_zero] at hm
    omega
  obtain ⟨hge, hlt⟩ := (Nat.log2_eq_iff h0).mp hm
  constructor
  · rwa [Nat.le_div_iff_mul_le (Nat.two_pow_pos k), ← pow_add]
  · rw [Nat.div_lt_iff_lt_mul (Nat.two_pow_pos k), ← pow_add]
    rwa [show 53 + k = 52 + k + 1 by omega]

theorem rounded_bounds : 2 ^ 52 ≤ (withoutBits m k).roundedMantissa ∧
    (withoutBits m k).roundedMantissa ≤ 2 ^ 53 := by
  have hround := roundedMantissa_bounds (withoutBits m k)
  rw [mantissa_withoutBits] at hround
  have hdiv := div_bounds hm
  omega

end Bits

def carry (m k : Nat) : Nat :=
  if (withoutBits m k).roundedMantissa = 2 ^ 53 then 1 else 0

theorem carry_le_one (m k : Nat) : carry m k ≤ 1 := by
  unfold carry
  split_ifs <;> omega

/-- **When rounding carries.** It does if the first 54 bits of the number are all set. -/
theorem carry_eq_one_iff {m k : Nat} (hm : m.log2 = 52 + (k + 1)) :
    carry m (k + 1) = 1 ↔ (2 ^ 54 - 1) * 2 ^ k ≤ m := by
  have hhalf : m / 2 ^ (k + 1) = m / 2 ^ k / 2 := by
    rw [Nat.div_div_eq_div_mul, ← Nat.pow_succ]
  obtain ⟨hge, hlt⟩ := div_bounds hm
  have hround := roundedMantissa_bounds (withoutBits m (k + 1))
  have hodd := roundedMantissa_of_odd (withoutBits m (k + 1))
  rw [roundBit_withoutBits, mantissa_withoutBits, hhalf] at hodd
  rw [mantissa_withoutBits, hhalf] at hround
  rw [hhalf] at hge hlt
  have hcarry : carry m (k + 1) = 1 ↔ (withoutBits m (k + 1)).roundedMantissa = 2 ^ 53 := by
    unfold carry
    split_ifs with h
    · exact iff_of_true rfl h
    · exact iff_of_false not_false h
  rw [hcarry, ← Nat.le_div_iff_mul_le (Nat.two_pow_pos k)]
  simp only [bne_iff_ne] at hodd
  generalize m / 2 ^ k = a at *
  split_ifs at hodd <;> omega

theorem targetExponent_eq {m : Nat} {e : Int} (he : -1022 ≤ m.log2 + e) :
    Format.binary64.targetExponent (totalExponent m e) = m.log2 + e - 52 := by
  show max ((m.log2 : Int) + 1 + e - 53) (3 - 2 ^ 10 - 53) = _
  omega

theorem shiftToTargetExponent_eq {m k : Nat} {e : Int} (hm : m.log2 = 52 + k)
    (he : -1074 ≤ e + k) :
    shiftToTargetExponent Format.binary64 m e .exact = (withoutBits m k, e + k) := by
  rw [shiftToTargetExponent, targetExponent_eq (by omega), shiftToExponent]
  have hk : ((m.log2 : Int) + e - 52 - e).toNat = k := by omega
  rw [hk]
  rfl

/-- **Rounding.** Of a number with at least 53 bits so many are kept, and the last of them is one
place higher if rounding carries. -/
theorem roundWithAccuracy_eq {m k : Nat} {e : Int} (s : Sign) (hm : m.log2 = 52 + k)
    (he : -1074 ≤ e + k) : ∃ r h, r.log2 = 52 ∧
      roundWithAccuracy Format.binary64 s m e .exact = .finite s r (e + k + carry m k) h := by
  obtain ⟨hge, hle⟩ := rounded_bounds hm
  have hlog : (withoutBits m k).roundedMantissa.log2 = 52 + carry m k := by
    unfold carry
    split_ifs with hr
    · rw [hr, Nat.log2_two_pow]
    · exact (Nat.log2_eq_iff (by omega)).mpr (by omega)
  rw [roundWithAccuracy, shiftToTargetExponent_eq hm he]
  dsimp only
  generalize (withoutBits m k).roundedMantissa = r at *
  generalize carry m k = j at *
  obtain ⟨hrge, hrlt⟩ := div_bounds hlog
  have hlog' : (r / 2 ^ j).log2 = 52 := (Nat.log2_eq_iff (by omega)).mpr ⟨hrge, hrlt⟩
  refine ⟨r / 2 ^ j, by omega, hlog', ?_⟩
  rw [shiftToTargetExponent_eq hlog (by omega)]
  dsimp only
  simp only [mantissa_withoutBits]
  rw [dif_neg (by omega)]

/-! ## Packing

A normal number is packed and found again. Its exponent may be anything from -1074 up to 971,
and from there on there are infinities only. -/

theorem unpackSign_packComponents {spec : Format} (s : Sign)
    (e : BitVec spec.exponentBits) (m : BitVec spec.mantissaBitsWithoutImplicit) :
    unpackSign (packComponents spec s e m) = s.toBitVec := by
  ext i hi
  obtain rfl : i = 0 := by omega
  simp [unpackSign, packComponents, BitVec.getLsbD_append, BitVec.getElem_append]

theorem ofBitVec_toBitVec (s : Sign) : Sign.ofBitVec s.toBitVec = s := by
  cases s <;> rfl

theorem toNat_implicit_append {m : Nat} (hm : m.log2 = 52) (h : 0 < m) :
    (1#1 ++ BitVec.ofNat 52 m).toNat = m := by
  obtain ⟨hge, hlt⟩ := (Nat.log2_eq_iff h.ne').mp hm
  rw [BitVec.toNat_append, ← Nat.shiftLeft_add_eq_or_of_lt (BitVec.isLt _), BitVec.toNat_ofNat]
  show 1 <<< 52 + m % 2 ^ 52 = m
  omega

section Normal

variable {s : Sign} {m b : Nat} (h : 0 < m) (hm : m.log2 = 52) (hb : b < 2047)
include hm hb

theorem pack_finite : UnpackedFloat.pack Format.binary64 (.finite s m (b - 1075) h) =
    packComponents Format.binary64 s (BitVec.ofNat 11 b) (BitVec.ofNat 52 m) := by
  have hbits : (((b : Int) - 1075) + (Format.binary64.exponentBias : Int) +
      (Format.binary64.mantissaBitsWithoutImplicit : Int)).toNat = b := by
    show ((b : Int) - 1075 + 1023 + 52).toNat = b
    omega
  have hfit : ¬ 2 ^ Format.binary64.exponentBits ≤ b + 1 := by
    show ¬ 2 ^ 11 ≤ b + 1
    omega
  have hlog : m.log2 + 1 = Format.binary64.mantissaBits := by
    rw [hm]
    rfl
  rw [UnpackedFloat.pack, hbits]
  dsimp only
  rw [if_neg hfit, if_pos hlog]

theorem unpack_packComponents (h0 : 0 < b) :
    UnpackedFloat.unpack Format.binary64
      (packComponents Format.binary64 s (BitVec.ofNat 11 b) (BitVec.ofNat 52 m)) =
    .finite s m (b - 1075) h := by
  have hexp : (BitVec.ofNat 11 b).toNat = b := by
    rw [BitVec.toNat_ofNat]
    exact Nat.mod_eq_of_lt (by omega)
  have hne {c : BitVec 11} (hc : b ≠ c.toNat) : BitVec.ofNat 11 b ≠ c := by
    rintro rfl
    exact hc hexp.symm
  have hzero : BitVec.ofNat 11 b ≠ 0#11 := hne h0.ne'
  have hones : BitVec.ofNat 11 b ≠ -1#11 := hne hb.ne
  rw [UnpackedFloat.unpack]
  simp only [unpackMantissa_packComponents, unpackExponent_packComponents,
    unpackSign_packComponents, ofBitVec_toBitVec, hzero, hones, if_false, hexp,
    toNat_implicit_append hm h]
  rfl

end Normal

theorem unpack_pack_of_lt {s : Sign} {m : Nat} {e : Int} (h : 0 < m) (hm : m.log2 = 52)
    (hlo : -1074 ≤ e) (hhi : e < 972) :
    (Float.Model.pack (.finite s m e h)).unpack = .finite s m e h := by
  obtain ⟨b, rfl⟩ : ∃ b : Nat, e = (b : Int) - 1075 := ⟨(e + 1075).toNat, by omega⟩
  show UnpackedFloat.unpack Format.binary64 (UnpackedFloat.pack Format.binary64 _) = _
  rw [pack_finite h hm (by omega), unpack_packComponents h hm (by omega) (by omega)]

theorem unpack_pack_of_le {s : Sign} {m : Nat} {e : Int} (h : 0 < m) (he : 972 ≤ e) :
    (Float.Model.pack (.finite s m e h)).unpack = .infinity s := by
  have hpack : UnpackedFloat.pack Format.binary64 (.finite s m e h) =
      packedInfinity Format.binary64 s := by
    have hfull : 2 ^ Format.binary64.exponentBits ≤ (e + (Format.binary64.exponentBias : Int) +
        (Format.binary64.mantissaBitsWithoutImplicit : Int)).toNat + 1 := by
      show 2 ^ 11 ≤ (e + 1023 + 52).toNat + 1
      omega
    rw [UnpackedFloat.pack]
    dsimp only
    rw [if_pos hfull]
  show UnpackedFloat.unpack Format.binary64 (UnpackedFloat.pack Format.binary64 _) = _
  rw [hpack]
  cases s <;> rfl

/-- `f` packs a number of 53 bits, the last of which is worth `2 ^ e`. -/
def Packs (f : Float) (s : Sign) (e : Int) : Prop :=
  ∃ m h, m.log2 = 52 ∧ f.toModel = Float.Model.pack (.finite s m e h)

section Packs

variable {f : Float} {s : Sign} {e : Int} (hf : Packs f s e) (hlo : -1074 ≤ e)
include hf hlo

theorem Packs.unpack_of_lt (hhi : e < 972) : ∃ m h, m.log2 = 52 ∧
    f.toModel.unpack = .finite s m e h := by
  obtain ⟨m, h, hm, hmodel⟩ := hf
  exact ⟨m, h, hm, hmodel ▸ unpack_pack_of_lt h hm hlo hhi⟩

omit hlo in
theorem Packs.unpack_of_le (hhi : 972 ≤ e) : f.toModel.unpack = .infinity s := by
  obtain ⟨m, h, -, hmodel⟩ := hf
  rw [hmodel, unpack_pack_of_le h hhi]

theorem Packs.isInf_iff : f.isInf = true ↔ 972 ≤ e := by
  show f.toModel.unpack.isInf = true ↔ _
  rcases lt_or_ge e 972 with he | he
  · obtain ⟨m, h, -, hunpack⟩ := hf.unpack_of_lt hlo he
    rw [hunpack]
    exact iff_of_false (by nofun) (by omega)
  · rw [hf.unpack_of_le he]
    exact iff_of_true rfl he

theorem Packs.isInf_neg : f.neg.isInf = f.isInf := by
  show (Float.Model.pack f.toModel.unpack.neg).unpack.isInf = f.toModel.unpack.isInf
  rcases lt_or_ge e 972 with he | he
  · obtain ⟨m, h, hm, hunpack⟩ := hf.unpack_of_lt hlo he
    rw [hunpack, UnpackedFloat.neg, unpack_pack_of_lt h hm hlo he]
    rfl
  · rw [hf.unpack_of_le he]
    cases s <;> rfl

end Packs

/-! ## Integers -/

theorem log2_shiftLeft {n : Nat} (hn : 0 < n) (k : Nat) : (n <<< k).log2 = n.log2 + k := by
  obtain ⟨hge, hlt⟩ := (Nat.log2_eq_iff hn.ne').mp rfl
  have hpos := Nat.two_pow_pos k
  rw [Nat.shiftLeft_eq]
  refine (Nat.log2_eq_iff (by positivity)).mpr ⟨?_, ?_⟩
  · rw [pow_add]
    exact Nat.mul_le_mul_right _ hge
  · rw [show n.log2 + k + 1 = n.log2 + 1 + k by omega, pow_add]
    exact Nat.mul_lt_mul_of_pos_right hlt hpos

theorem packs_of_round {f : Float} {s : Sign} {m k : Nat} {e : Int} (hm : m.log2 = 52 + k)
    (he : -1074 ≤ e + k)
    (hf : f.toModel = Float.Model.pack (roundWithAccuracy Format.binary64 s m e .exact)) :
    Packs f s (e + k + carry m k) := by
  obtain ⟨r, h, hr, hround⟩ := roundWithAccuracy_eq s hm he
  exact ⟨r, h, hr, hround ▸ hf⟩

theorem packs_toFloat {n : Nat} (h0 : 0 < n) (hn : n < 2 ^ 53) :
    ∃ e, Packs n.toUInt64.toFloat .positive e ∧ -52 ≤ e ∧ e ≤ 1 := by
  have hlog : n.log2 < 53 := (Nat.log2_lt h0.ne').mpr hn
  have hnat : n.toUInt64.toNat = n := by
    show n % 2 ^ 64 = n
    omega
  have hcompare : compare (n : Int) 0 = .gt := Int.compare_eq_gt.mpr (by omega)
  have hplace : ((0 : Int) - ((n.log2 : Int) + 0 - 52)).toNat = 52 - n.log2 := by omega
  have hshift : (n <<< (52 - n.log2)).log2 = 52 + 0 := by
    rw [log2_shiftLeft h0]
    omega
  have hround : UnpackedFloat.ofUInt64 Format.binary64 n.toUInt64 =
      roundWithAccuracy Format.binary64 .positive (n <<< (52 - n.log2))
        (0 - ((52 - n.log2 : Nat) : Int)) .exact := by
    rw [UnpackedFloat.ofUInt64, UnpackedFloat.ofNat, UnpackedFloat.ofInt,
      Float.Model.UnpackedFloat.normalize, hnat, hcompare]
    dsimp only
    rw [UnpackedFloat.round, Int.toNat_natCast, targetExponent_eq (by omega), decreaseExponent,
      hplace]
  have hcarry := carry_le_one (n <<< (52 - n.log2)) 0
  have hf := packs_of_round hshift (by omega) (congrArg Float.Model.pack hround)
  exact ⟨_, hf, by omega, by omega⟩

theorem packs_ofNat_of_lt {n : Nat} (h0 : 0 < n) (hn : n < 2 ^ 53) :
    ∃ e, Packs (Float.ofNat n) .positive e ∧ -52 ≤ e ∧ e ≤ 2 := by
  obtain ⟨e, hf, hlo, hhi⟩ := packs_toFloat h0 hn
  obtain ⟨r, h, hr, hunpack⟩ := hf.unpack_of_lt (by omega) (by omega)
  have hshift : (r * 2 ^ 52).log2 = 52 + 52 := by
    rw [← Nat.shiftLeft_eq, log2_shiftLeft h, hr]
  have hone : Float.exactlyRepresentablePowersOfTen[0].toModel.unpack =
      .finite .positive (2 ^ 52) (-52) (by decide) := by
    rfl
  have hmodel : (Float.ofNat n).toModel = Float.Model.pack
      (roundWithAccuracy Format.binary64 .positive (r * 2 ^ 52) (e + -52) .exact) := by
    show (Float.ofScientific n false 0).toModel = _
    rw [Float.ofScientific, dif_pos ⟨hn, by decide⟩]
    show Float.Model.pack (UnpackedFloat.mul Format.binary64 n.toUInt64.toFloat.toModel.unpack
      Float.exactlyRepresentablePowersOfTen[0].toModel.unpack) = _
    rw [hunpack, hone]
    rfl
  have hcarry := carry_le_one (r * 2 ^ 52) 52
  exact ⟨_, packs_of_round hshift (by omega) hmodel, by omega, by omega⟩

/-- Of a large integer the exponent is that of its first 53 bits. -/
theorem packs_ofNat_of_le {n : Nat} (hn : 2 ^ 53 ≤ n) : Packs (Float.ofNat n) .positive
    (-53 + (n.log2 + 1 : Nat) + carry (n <<< 53) (n.log2 + 1)) := by
  have hlog : (n <<< 53).log2 = 52 + (n.log2 + 1) := by
    rw [log2_shiftLeft (by omega)]
    omega
  refine packs_of_round hlog (by omega) ?_
  show (Float.ofScientific n false 0).toModel = _
  rw [Float.ofScientific, dif_neg (by omega)]
  show Float.Model.pack (UnpackedFloat.ofScientific Format.binary64 n 0) = _
  have hsmall : ¬ (0 : Int) < -((2 ^ Format.binary64.exponentBits : Int) + n.log2) := by
    show ¬ (0 : Int) < -((2 ^ 11 : Int) + n.log2)
    omega
  rw [UnpackedFloat.ofScientific, dif_neg (by omega), if_neg (by decide), if_neg hsmall,
    if_pos (by decide)]
  show Float.Model.pack
    (roundWithAccuracy Format.binary64 .positive (n <<< 53 * 1) (-53 + 0) .exact) = _
  rw [mul_one]
  rfl

/-- The bound is 54 bits that are all set. Their place is kept as a variable, since its power of
2 is too large to be computed over and over. -/
theorem doubleBound_eq {k : Nat} (hk : k = 970) :
    Quantity.doubleBound = (2 ^ 54 - 1) * 2 ^ k := by
  have hones : 2 ^ 54 - 1 = 0x3fffffffffffff := rfl
  rw [hones, ← Nat.shiftLeft_eq, hk, Quantity.doubleBound]

theorem two_pow_lt_doubleBound : 2 ^ 53 < Quantity.doubleBound := by
  obtain ⟨k, hk⟩ : ∃ k, k = 970 := ⟨_, rfl⟩
  have hpos := Nat.two_pow_pos k
  rw [doubleBound_eq hk]
  omega

/-- A large integer overflows where its first 54 bits cannot be kept within the range. -/
theorem overflow_iff {n : Nat} (hn : 2 ^ 53 ≤ n) :
    (972 : Int) ≤ -53 + (n.log2 + 1 : Nat) + carry (n <<< 53) (n.log2 + 1) ↔
      Quantity.doubleBound ≤ n := by
  obtain ⟨k, hk⟩ : ∃ k, k = 970 := ⟨_, rfl⟩
  have hn0 : 0 < n := by omega
  have hlog : (n <<< 53).log2 = 52 + (n.log2 + 1) := by
    rw [log2_shiftLeft hn0]
    omega
  have hcarry := carry_eq_one_iff hlog
  have hle := carry_le_one (n <<< 53) (n.log2 + 1)
  obtain ⟨hge, hlt⟩ := (Nat.log2_eq_iff hn0.ne').mp rfl
  rw [Nat.shiftLeft_eq] at hcarry hle ⊢
  rw [doubleBound_eq hk]
  -- below the last power of 2 even a carry stays in range, above it nothing does
  rcases lt_trichotomy n.log2 (k + 53) with hL | hL | hL
  · have hsmall : n < 2 ^ k * 2 ^ 53 := by
      rw [← pow_add]
      exact hlt.trans_le (Nat.pow_le_pow_right Nat.two_pos hL)
    exact iff_of_false (by omega) (by omega)
  · have hscale : (2 ^ 54 - 1) * 2 ^ n.log2 ≤ n * 2 ^ 53 ↔ (2 ^ 54 - 1) * 2 ^ k ≤ n := by
      rw [hL, pow_add, ← mul_assoc, Nat.mul_le_mul_right_iff (Nat.two_pow_pos 53)]
    rw [← hscale, ← hcarry]
    omega
  · have hlarge : 2 ^ k * 2 ^ 54 ≤ n := by
      rw [← pow_add]
      exact (Nat.pow_le_pow_right Nat.two_pos hL).trans hge
    exact iff_of_true (by omega) (by omega)

/-- A positive integer becomes the packed form of 53 bits, and these are out of range from
`doubleBound` on. -/
theorem exists_packs_ofNat {n : Nat} (h0 : 0 < n) :
    ∃ e, Packs (Float.ofNat n) .positive e ∧ -1074 ≤ e ∧
      (972 ≤ e ↔ Quantity.doubleBound ≤ n) := by
  rcases lt_or_ge n (2 ^ 53) with hn | hn
  · obtain ⟨e, hf, hlo, hhi⟩ := packs_ofNat_of_lt h0 hn
    have hbound := hn.trans two_pow_lt_doubleBound
    exact ⟨e, hf, by omega, iff_of_false (by omega) hbound.not_ge⟩
  · exact ⟨_, packs_ofNat_of_le hn, by omega, overflow_iff hn⟩

/-- **Integers as doubles.** From `doubleBound` on, and only there, no double is close to an
integer. -/
theorem isInf_ofNat_iff (n : Nat) :
    (Float.ofNat n).isInf = true ↔ Quantity.doubleBound ≤ n := by
  rcases Nat.eq_zero_or_pos n with rfl | h0
  · have hbound := two_pow_lt_doubleBound
    exact iff_of_false (by decide) (not_le.mpr (by omega))
  · obtain ⟨e, hf, he, hrange⟩ := exists_packs_ofNat h0
    rw [hf.isInf_iff he, hrange]

theorem isInf_ofInt_iff (i : Int) :
    (Float.ofInt i).isInf = true ↔ Quantity.doubleBound ≤ i.natAbs := by
  cases i with
  | ofNat n => exact isInf_ofNat_iff n
  | negSucc n =>
      obtain ⟨e, hf, he, -⟩ := exists_packs_ofNat n.succ_pos
      show (Float.ofNat n.succ).neg.isInf = true ↔ Quantity.doubleBound ≤ n.succ
      rw [hf.isInf_neg he, isInf_ofNat_iff]

end Blum.Double
