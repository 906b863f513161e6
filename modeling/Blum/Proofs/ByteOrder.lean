import Mathlib
import Blum.Proofs.ByteStrings
import Blum.Proofs.Candidates
import Blum.Proofs.RawBytes

/-!
# The order of byte strings

The shortest byte string of a number is as long as its bits need, and no other
byte string of the number is as short. Of two numbers the one with the shorter
string is the smaller one; between strings of one length the first byte in
which they differ decides. The order of numbers is thus the order of their
strings by length first and by bytes next.

Reading is not injective, so the second half holds of strings of one length
only, and the first half of shortest strings only.
-/

namespace Blum

namespace Bytes

open Draw (decode_append decode_lt eq_of_decode_eq)

/-! ## The shortest string -/

theorem length_encodeNat (n : Nat) : (encodeNat n).length = (bitLength n + 7) / 8 := by
  refine eq_of_forall_ge_iff fun k => ?_
  rw [length_encodeNat_le_iff, show 256 = 2 ^ 8 by rfl, ← pow_mul, ← bitLength_le_iff]
  omega

theorem eq_or_length_lt {data : List UInt8} {n : Nat} (h : decode data = n) :
    data = encodeNat n ∨ (encodeNat n).length < data.length := by
  have hle : (encodeNat n).length ≤ data.length :=
    length_encodeNat_le_iff.mpr (h ▸ decode_lt data)
  rcases hle.eq_or_lt with hlen | hlt
  · exact Or.inl (eq_of_decode_eq hlen.symm (h.trans (decode_encodeNat n).symm))
  · exact Or.inr hlt

theorem exists_head_encodeNat {n : Nat} (hn : n ≠ 0) :
    ∃ b rest, encodeNat n = b :: rest ∧ b ≠ 0 := by
  cases hdata : encodeNat n with
  | nil =>
      have hzero := decode_encodeNat n
      rw [hdata] at hzero
      exact absurd hzero.symm hn
  | cons b rest =>
      refine ⟨b, rest, rfl, ?_⟩
      rintro rfl
      have hmin := minimal_encodeNat n
      rw [hdata] at hmin
      exact hmin rfl

/-! ## Strings of one length -/

theorem decode_cons (b : UInt8) (rest : List UInt8) :
    decode (b :: rest) = b.toNat * 256 ^ rest.length + decode rest := by
  have hhead : decode [b] = b.toNat := Nat.zero_add _
  rw [← List.singleton_append, decode_append, hhead]

theorem mul_add_lt_mul_add_iff {base a b d e : Nat} (hd : d < base) (he : e < base) :
    a * base + d < b * base + e ↔ a < b ∨ a = b ∧ d < e := by
  rcases lt_trichotomy a b with h | rfl | h
  · have hle := Nat.mul_le_mul_right base (Nat.succ_le_of_lt h)
    rw [Nat.succ_mul] at hle
    omega
  · omega
  · have hle := Nat.mul_le_mul_right base (Nat.succ_le_of_lt h)
    rw [Nat.succ_mul] at hle
    omega

/-- **The first different byte decides** between strings of one length. -/
theorem decode_lt_decode_iff {data data' : List UInt8} (h : data.length = data'.length) :
    decode data < decode data' ↔ List.Lex (· < ·) data data' := by
  induction data generalizing data' with
  | nil =>
      obtain rfl := List.length_eq_zero_iff.mp h.symm
      simp
  | cons b data ih =>
      cases data' with
      | nil => cases h
      | cons b' data' =>
          have hlen : data.length = data'.length := Nat.succ.inj h
          have hlt := decode_lt data
          rw [hlen] at hlt
          rw [decode_cons, decode_cons, hlen, mul_add_lt_mul_add_iff hlt (decode_lt data'),
            List.cons_lex_cons_iff, ih hlen, UInt8.lt_iff_toNat_lt, UInt8.toNat_inj]

/-! ## Shortest strings -/

/-- **The order of numbers is the order of their shortest strings**, by length
first and by bytes next. -/
theorem lt_iff_shortlex {m n : Nat} :
    m < n ↔ List.Shortlex (· < ·) (encodeNat m) (encodeNat n) := by
  rw [List.shortlex_def]
  rcases lt_trichotomy (encodeNat m).length (encodeNat n).length with h | h | h
  · have hlt : m < n := by
      by_contra hle
      have := length_encodeNat_mono (not_lt.mp hle)
      omega
    exact iff_of_true hlt (Or.inl h)
  · rw [← decode_lt_decode_iff h, decode_encodeNat, decode_encodeNat]
    omega
  · have hle : n ≤ m := by
      by_contra hlt
      have := length_encodeNat_mono (not_le.mp hlt).le
      omega
    omega

theorem encode_natCast (n : Nat) : encode n = .ok (encodeNat n) :=
  encode_of_nonneg (Int.natCast_nonneg n)

theorem encode_of_neg {x : Int} (hx : x < 0) : encode x = .error .negativeEncoding :=
  if_pos hx

/-- **The laws of the encoding.** Every number that is not negative has a byte string that reads
back as the number. It is as long as the bits of the number need, shorter than every other byte
string of the number, and without a leading zero. Writing what was read drops the leading zeros,
and two byte strings read alike if they are equal without them. The strings are ordered as the
numbers are, by length first and by bytes next. A negative number is refused. -/
theorem encoding_laws :
    (∀ n : Nat, ∃ data, encode n = .ok data ∧ decode data = n ∧
      data.length = (bitLength n + 7) / 8 ∧
      (∀ other, decode other = n → other = data ∨ data.length < other.length) ∧
      (n = 0 → data = []) ∧ (n ≠ 0 → ∃ b rest, data = b :: rest ∧ b ≠ 0)) ∧
    (∀ data, encode (decode data) = .ok (strip data)) ∧
    (∀ data data', decode data = decode data' ↔ strip data = strip data') ∧
    (∀ m n : Nat, ∃ data data', encode m = .ok data ∧ encode n = .ok data' ∧
      (m < n ↔ List.Shortlex (· < ·) data data')) ∧
    ∀ x : Int, x < 0 → encode x = .error .negativeEncoding ∧
      Fault.negativeEncoding.kind = .value := by
  refine ⟨?_, ?_, fun data data' => decode_eq_decode_iff, ?_, fun x hx => ?_⟩
  · intro n
    refine ⟨encodeNat n, encode_natCast n, decode_encodeNat n, length_encodeNat n,
      fun other => eq_or_length_lt, ?_, exists_head_encodeNat⟩
    rintro rfl
    exact encodeNat_zero
  · intro data
    rw [encode_natCast, encodeNat_decode]
  · intro m n
    exact ⟨_, _, encode_natCast m, encode_natCast n, lt_iff_shortlex⟩
  · exact ⟨encode_of_neg hx, rfl⟩

theorem encoding_laws_two_bytes :
    (∃ data, encode 256 = .ok data ∧ (∃ b rest, data = b :: rest ∧ b ≠ 0) ∧
      ([0, 1, 0] = data ∨ data.length < 3)) ∧
    (∃ data data', encode 255 = .ok data ∧ encode 256 = .ok data' ∧
      List.Shortlex (· < ·) data data') ∧
    (-1 : Int) < 0 ∧ encode (-1) = .error .negativeEncoding := by
  obtain ⟨hwrite, -, -, horder, hneg⟩ := encoding_laws
  refine ⟨?_, ?_, by decide, (hneg (-1) (by decide)).1⟩
  · obtain ⟨data, hdata, -, -, hshortest, -, hhead⟩ := hwrite 256
    exact ⟨data, hdata, hhead (by decide), hshortest [0, 1, 0] (by decide)⟩
  · obtain ⟨data, data', hdata, hdata', hiff⟩ := horder 255 256
    exact ⟨data, data', hdata, hdata', hiff.mp (by decide)⟩

end Bytes

end Blum
