import Mathlib
import Blum.Proofs.Draws

/-!
# Integers and the bytes they are drawn from

A random integer is a function of the next bytes of its source, as long as the
source grants them. The function is even: the low bytes are taken whole, and
of the byte that comes last only the top bits count, so every integer of the
given width is drawn from equally many byte strings, one for each way to fill
the bits that are dropped.
-/

namespace Blum

namespace Source

/-- Both limits leave room for `n` bytes in `k` requests. -/
def Grants (s : Source) (n k : Nat) : Prop :=
  s.bytesUsed + n ≤ s.byteLimit ∧ s.callsUsed + k ≤ s.callLimit

/-- The source after `k` requests that took `n` bytes. -/
def spend (s : Source) (n k : Nat) : Source :=
  { s with bytesUsed := s.bytesUsed + n, callsUsed := s.callsUsed + k }

theorem spend_spend (s : Source) (m n j k : Nat) :
    (s.spend m j).spend n k = s.spend (m + n) (j + k) := by
  simp [spend, Nat.add_assoc]

theorem length_next (s : Source) (n : Nat) : (s.next n).length = n := by
  simp [next]

theorem next_add (s : Source) (m n k : Nat) :
    s.next (m + n) = s.next m ++ (s.spend m k).next n := by
  simp [next, spend, List.range_add, Nat.add_assoc, Function.comp_def]

theorem Grants.of_add {s : Source} {m n j k : Nat} (h : s.Grants (m + n) (j + k)) :
    s.Grants m j ∧ (s.spend m j).Grants n k := by
  simp only [Grants, spend] at h ⊢
  omega

end Source

namespace Draw

variable {s : Source}

theorem bytes_of_grants {n : Nat} (h : s.Grants n 1) :
    bytes n s = (.ok (s.next n), s.spend n 1) := by
  have hr : ¬ s.Refuses n := by
    simp only [Source.Grants] at h
    simp only [Source.Refuses]
    omega
  exact if_neg hr

theorem bytes_of_not_grants {n : Nat} (h : ¬ s.Grants n 1) :
    bytes n s = (.error .sourceExhausted, s.spend 0 1) := by
  have hr : s.Refuses n := by
    simp only [Source.Grants] at h
    simp only [Source.Refuses]
    omega
  exact if_pos hr

/-! ## One integer -/

def byteCount (width : Nat) : Nat := (width + 7) / 8

/-- How many requests are made: a byte that is not taken whole is drawn apart. -/
def callCount (width : Nat) : Nat := if width % 8 = 0 then 1 else 2

theorem byteCount_of_whole {width : Nat} (h : width % 8 = 0) :
    byteCount width = width / 8 := by
  rw [byteCount]
  omega

theorem byteCount_of_partial {width : Nat} (h : width % 8 ≠ 0) :
    byteCount width = width / 8 + 1 := by
  rw [byteCount]
  omega

/-- The integer of `width` bits that is made of raw bytes, in the order in which
they are drawn. -/
def ofRaw (width : Nat) (raw : List UInt8) : Nat :=
  assemble width (raw.take (width / 8)) (raw.drop (width / 8))

theorem ofRaw_append {width : Nat} {low top : List UInt8} (h : low.length = width / 8) :
    ofRaw width (low ++ top) = assemble width low top := by
  rw [ofRaw, ← h, List.take_left, List.drop_left]

theorem integer_of_grants {width : Nat}
    (h : s.Grants (byteCount width) (callCount width)) :
    integer width s = (.ok (ofRaw width (s.next (byteCount width))),
      s.spend (byteCount width) (callCount width)) := by
  have hlow := s.length_next (width / 8)
  by_cases h8 : width % 8 = 0
  · rw [callCount, if_pos h8, byteCount_of_whole h8] at h ⊢
    rw [integer, Stateful.bind_apply, bytes_of_grants h]
    simp only [if_pos h8]
    rw [← List.append_nil (s.next (width / 8)), ofRaw_append hlow, List.append_nil]
    rfl
  · rw [callCount, if_neg h8, byteCount_of_partial h8] at h ⊢
    obtain ⟨hfirst, hsecond⟩ := Source.Grants.of_add (j := 1) (k := 1) h
    rw [integer, Stateful.bind_apply, bytes_of_grants hfirst]
    simp only [if_neg h8]
    rw [Stateful.bind_apply, bytes_of_grants hsecond, s.next_add _ _ 1, ofRaw_append hlow,
      Source.spend_spend]
    rfl

/-- An integer that is cut short has taken its low bytes at most. -/
theorem integer_of_not_grants {width : Nat}
    (h : ¬ s.Grants (byteCount width) (callCount width)) :
    ∃ m k, m ≤ (width - 1) / 8 ∧
      integer width s = (.error .sourceExhausted, s.spend m k) := by
  -- the low bytes may still be granted when the top byte is not
  by_cases hfirst : s.Grants (width / 8) 1
  · have h8 : width % 8 ≠ 0 := by
      intro h8
      rw [callCount, if_pos h8, byteCount_of_whole h8] at h
      exact h hfirst
    have hsecond : ¬ (s.spend (width / 8) 1).Grants 1 1 := by
      intro hsecond
      apply h
      rw [callCount, if_neg h8, byteCount_of_partial h8]
      simp only [Source.Grants, Source.spend] at hfirst hsecond ⊢
      omega
    refine ⟨width / 8, 2, by omega, ?_⟩
    rw [integer, Stateful.bind_apply, bytes_of_grants hfirst]
    simp only [if_neg h8]
    rw [Stateful.bind_apply, bytes_of_not_grants hsecond, Source.spend_spend]
    rfl
  · refine ⟨0, 1, Nat.zero_le _, ?_⟩
    rw [integer, Stateful.bind_apply, bytes_of_not_grants hfirst]

/-! ## How many byte strings make an integer -/

theorem eq_of_decode_eq {low low' : List UInt8} (hlen : low.length = low'.length)
    (h : Bytes.decode low = Bytes.decode low') : low = low' := by
  induction low using List.reverseRecOn generalizing low' with
  | nil => exact (List.length_eq_zero_iff.mp hlen.symm).symm
  | append_singleton low b ih =>
      rcases List.eq_nil_or_concat low' with rfl | ⟨low', b', rfl⟩
      · simp at hlen
      · rw [List.concat_eq_append] at h hlen ⊢
        rw [decode_append_singleton, decode_append_singleton] at h
        have hb := b.toNat_lt
        have hb' := b'.toNat_lt
        have hlow : low = low' := ih (by simpa using hlen) (by omega)
        have hbyte : b = b' := UInt8.toNat_inj.mp (by omega)
        rw [hlow, hbyte]

theorem exists_decode_eq (k : Nat) {w : Nat} (hw : w < 256 ^ k) :
    ∃ low : List UInt8, low.length = k ∧ Bytes.decode low = w := by
  induction k generalizing w with
  | zero =>
      refine ⟨[], rfl, ?_⟩
      rw [pow_zero, Nat.lt_one_iff] at hw
      exact hw.symm
  | succ k ih =>
      obtain ⟨low, hlen, hdec⟩ := ih (w := w / 256) (by
        rw [pow_succ] at hw
        exact Nat.div_lt_of_lt_mul (by rwa [mul_comm]))
      refine ⟨low ++ [UInt8.ofNat (w % 256)], by simp [hlen], ?_⟩
      rw [decode_append_singleton, hdec, UInt8.toNat_ofNat']
      omega

/-- As many bytes share their top bits as there are ways to fill the others. -/
theorem ncard_topBits {k c : Nat} (h₀ : 0 < k) (h₈ : k < 8) (hc : c < 2 ^ k) :
    {b : UInt8 | (b >>> UInt8.ofNat (8 - k)).toNat = c}.ncard = 2 ^ (8 - k) := by
  have hpow : 2 ^ k * 2 ^ (8 - k) = 256 := by
    rw [← pow_add, show k + (8 - k) = 8 by omega]
    rfl
  have hpos : 0 < 2 ^ (8 - k) := Nat.two_pow_pos _
  have himage : UInt8.toNat '' {b : UInt8 | (b >>> UInt8.ofNat (8 - k)).toNat = c} =
      Finset.Ico (c * 2 ^ (8 - k)) (c * 2 ^ (8 - k) + 2 ^ (8 - k)) := by
    ext i
    simp only [Set.mem_image, Set.mem_ofPred_eq, Finset.coe_Ico, Set.mem_Ico,
      toNat_topBits _ h₀ h₈, Nat.div_eq_iff hpos]
    constructor
    · rintro ⟨b, hb, rfl⟩
      omega
    · intro hi
      have hlt : i < 256 := by
        have : (c + 1) * 2 ^ (8 - k) ≤ 2 ^ k * 2 ^ (8 - k) := Nat.mul_le_mul_right _ hc
        rw [add_mul, one_mul] at this
        omega
      refine ⟨UInt8.ofNat i, ?_, ?_⟩ <;> rw [UInt8.toNat_ofNat_of_lt' hlt]
      omega
  have hinj : Function.Injective UInt8.toNat := fun _ _ => UInt8.toNat_inj.mp
  rw [← Set.ncard_image_of_injective _ hinj, himage, Set.ncard_coe_finset, Nat.card_Ico]
  omega

theorem assemble_singleton_eq_iff {width v : Nat} {low : List UInt8} {b : UInt8}
    (h : low.length = width / 8) :
    assemble width low [b] = v ↔
      (b >>> UInt8.ofNat (8 - width % 8)).toNat = v / 256 ^ (width / 8) ∧
        Bytes.decode low = v % 256 ^ (width / 8) := by
  have hlt := decode_lt low
  rw [h] at hlt
  rw [assemble_singleton, h, eq_comm (b := v / _), eq_comm (b := v % _),
    Nat.div_mod_unique (by positivity), and_iff_left hlt, add_comm, mul_comm]

theorem setOf_ofRaw_of_whole {width v : Nat} (h8 : width % 8 = 0) (hv : v < 2 ^ width) :
    ∃ low, {raw | raw.length = byteCount width ∧ ofRaw width raw = v} = {low} := by
  rw [two_pow_width, h8, pow_zero, one_mul] at hv
  obtain ⟨low, hlen, hdec⟩ := exists_decode_eq _ hv
  have hraw {raw : List UInt8} (h : raw.length = width / 8) :
      ofRaw width raw = Bytes.decode raw := by
    rw [← List.append_nil raw, ofRaw_append h, List.append_nil]
    rfl
  refine ⟨low, ?_⟩
  ext raw
  simp only [Set.mem_ofPred_eq, Set.mem_singleton_iff, byteCount_of_whole h8]
  constructor
  · rintro ⟨h, hval⟩
    rw [hraw h, ← hdec] at hval
    exact eq_of_decode_eq (h.trans hlen.symm) hval
  · rintro rfl
    exact ⟨hlen, (hraw hlen).trans hdec⟩

/-- A partial top byte: the low bytes are fixed, and so are its top bits. -/
theorem setOf_ofRaw_of_partial {width : Nat} (h8 : width % 8 ≠ 0) (v : Nat) :
    ∃ low, {raw | raw.length = byteCount width ∧ ofRaw width raw = v} =
      (fun b => low ++ [b]) ''
        {b | (b >>> UInt8.ofNat (8 - width % 8)).toNat = v / 256 ^ (width / 8)} := by
  obtain ⟨low, hlen, hdec⟩ :=
    exists_decode_eq (width / 8) (Nat.mod_lt v (by positivity : 0 < 256 ^ (width / 8)))
  refine ⟨low, ?_⟩
  ext raw
  simp only [Set.mem_ofPred_eq, Set.mem_image, byteCount_of_partial h8]
  constructor
  · rintro ⟨h, hval⟩
    rcases List.eq_nil_or_concat raw with rfl | ⟨low', b, rfl⟩
    · simp at h
    · rw [List.concat_eq_append] at h hval ⊢
      have hlen' : low'.length = width / 8 := by simpa using h
      rw [ofRaw_append hlen', assemble_singleton_eq_iff hlen', ← hdec] at hval
      refine ⟨b, hval.1, ?_⟩
      rw [eq_of_decode_eq (hlen'.trans hlen.symm) hval.2]
  · rintro ⟨b, hval, rfl⟩
    refine ⟨by simp [hlen], ?_⟩
    rw [ofRaw_append hlen, assemble_singleton_eq_iff hlen]
    exact ⟨hval, hdec⟩

/-- **The raw bytes are even.** Every integer of the width is made of equally
many byte strings. -/
theorem ncard_ofRaw {width v : Nat} (hv : v < 2 ^ width) :
    {raw : List UInt8 | raw.length = byteCount width ∧ ofRaw width raw = v}.ncard =
      2 ^ (8 * byteCount width - width) := by
  by_cases h8 : width % 8 = 0
  · obtain ⟨low, hset⟩ := setOf_ofRaw_of_whole h8 hv
    rw [hset, Set.ncard_singleton, byteCount_of_whole h8,
      show 8 * (width / 8) - width = 0 by omega, pow_zero]
  · obtain ⟨low, hset⟩ := setOf_ofRaw_of_partial h8 v
    have hinj : Function.Injective fun b : UInt8 => low ++ [b] := by
      intro b b' h
      simpa using h
    have htop : v / 256 ^ (width / 8) < 2 ^ (width % 8) := by
      rwa [Nat.div_lt_iff_lt_mul (by positivity), ← two_pow_width]
    rw [hset, Set.ncard_image_of_injective _ hinj,
      ncard_topBits (by omega) (by omega) htop, byteCount_of_partial h8]
    congr 1
    omega

theorem ofRaw_lt {width : Nat} {raw : List UInt8} (h : raw.length = byteCount width) :
    ofRaw width raw < 2 ^ width := by
  refine assemble_lt ?_ ?_
  · rw [List.length_take, h, byteCount]
    omega
  · rw [List.length_drop, h]
    split_ifs with h8
    · rw [byteCount_of_whole h8, Nat.sub_self]
    · rw [byteCount_of_partial h8, Nat.add_sub_cancel_left]

theorem exists_ofRaw_eq {width v : Nat} (hv : v < 2 ^ width) :
    ∃ raw : List UInt8, raw.length = byteCount width ∧ ofRaw width raw = v := by
  have hcount := (ncard_ofRaw hv).trans_ne (Nat.two_pow_pos _).ne'
  exact Set.nonempty_of_ncard_ne_zero hcount

/-- Several integers are made of as many byte strings as there are integers
times byte strings for one, since no string makes two. -/
theorem ncard_ofRaw_of_injective {ι : Type} [Fintype ι] {f : ι → Nat}
    (hf : Function.Injective f) {width : Nat} (hlt : ∀ i, f i < 2 ^ width) :
    {raw : List UInt8 | raw.length = byteCount width ∧ ∃ i, f i = ofRaw width raw}.ncard =
      Fintype.card ι * 2 ^ (8 * byteCount width - width) := by
  have hunion : {raw : List UInt8 | raw.length = byteCount width ∧
      ∃ i, f i = ofRaw width raw} =
        ⋃ i, {raw | raw.length = byteCount width ∧ ofRaw width raw = f i} := by
    ext raw
    simp only [Set.mem_ofPred_eq, Set.mem_iUnion, exists_and_left, eq_comm]
  rw [hunion, Set.ncard_iUnion_of_finite, finsum_eq_sum_of_fintype]
  · simp only [ncard_ofRaw (hlt _), Finset.sum_const, smul_eq_mul]
    rfl
  · intro i
    exact (List.finite_length_eq UInt8 (byteCount width)).subset fun raw h => h.1
  · intro i j hne
    rw [Function.onFun, Set.disjoint_left]
    rintro raw ⟨-, hi⟩ ⟨-, hj⟩
    exact hne (hf (hi.symm.trans hj))

end Draw

theorem ncard_length_eq (n : Nat) : {raw : List UInt8 | raw.length = n}.ncard = 256 ^ n := by
  show Nat.card (List.Vector UInt8 n) = _
  rw [Nat.card_eq_fintype_card, card_vector, ← FinEnum.card_eq_fintypeCard,
    FinEnum.card_UInt8]
  norm_num

end Blum
