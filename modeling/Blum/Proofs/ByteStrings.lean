import Mathlib
import Blum.Proofs.Draws

/-!
# Byte strings and the numbers they stand for

Writing a number gives its shortest byte string, and reading undoes writing.
The other way round only the leading zeros are lost: two byte strings stand for
the same number if they are equal without them. The length of the shortest
string is the number of digits in base 256, so it grows with the number.
-/

namespace Blum

namespace Bytes

open Draw (decode_append_singleton)

def strip (data : List UInt8) : List UInt8 := data.dropWhile (· = 0)

/-- The shortest of the byte strings for a number: there is no leading zero. -/
def Minimal (data : List UInt8) : Prop := data.head? ≠ some 0

/-- A byte string of the number `n`, with any number of leading zeros. -/
def Encodes (data : List UInt8) (n : Nat) : Prop :=
  ∃ k, data = List.replicate k 0 ++ encodeNat n

/-! ## Writing, digit by digit -/

theorem digitsOnto_of_ne_zero {n : Nat} (hn : n ≠ 0) (rest : List UInt8) :
    digitsOnto n rest = digitsOnto (n / 256) (UInt8.ofNat (n % 256) :: rest) := by
  rw [digitsOnto, if_neg hn]

theorem digitsOnto_append (n : Nat) (rest : List UInt8) :
    digitsOnto n rest = encodeNat n ++ rest := by
  unfold encodeNat
  induction n using Nat.strong_induction_on generalizing rest with
  | h n ih =>
      by_cases hn : n = 0
      · simp [digitsOnto, hn]
      · have hlt : n / 256 < n := by omega
        rw [digitsOnto_of_ne_zero hn, digitsOnto_of_ne_zero hn, ih _ hlt, ih _ hlt [_],
          List.append_assoc]
        rfl

@[simp]
theorem encodeNat_zero : encodeNat 0 = [] := by
  simp [encodeNat, digitsOnto]

theorem encodeNat_of_ne_zero {n : Nat} (hn : n ≠ 0) :
    encodeNat n = encodeNat (n / 256) ++ [UInt8.ofNat (n % 256)] := by
  rw [← digitsOnto_append, encodeNat, digitsOnto_of_ne_zero hn]

theorem encodeNat_mul_add {n : Nat} {b : UInt8} (h : n * 256 + b.toNat ≠ 0) :
    encodeNat (n * 256 + b.toNat) = encodeNat n ++ [b] := by
  have hb := b.toNat_lt
  have hdiv : (n * 256 + b.toNat) / 256 = n := by omega
  have hmod : (n * 256 + b.toNat) % 256 = b.toNat := by omega
  rw [encodeNat_of_ne_zero h, hdiv, hmod, UInt8.ofNat_toNat]

/-! ## Reading and writing -/

/-- **Reading undoes writing.** -/
theorem decode_encodeNat (n : Nat) : decode (encodeNat n) = n := by
  induction n using Nat.strong_induction_on with
  | h n ih =>
      by_cases hn : n = 0
      · simp [hn, decode]
      · rw [encodeNat_of_ne_zero hn, decode_append_singleton, ih _ (by omega),
          UInt8.toNat_ofNat']
        omega

/-- **Writing undoes reading**, but for leading zeros. -/
theorem encodeNat_decode (data : List UInt8) : encodeNat (decode data) = strip data := by
  unfold strip
  induction data using List.reverseRecOn with
  | nil => simp [decode]
  | append_singleton data b ih =>
      rw [decode_append_singleton, List.dropWhile_append, ← ih]
      by_cases hzero : decode data * 256 + b.toNat = 0
      · have hb : b = 0 := UInt8.toNat_inj.mp (by simp; omega)
        have hdata : decode data = 0 := by omega
        simp [hb, hdata]
      · rw [encodeNat_mul_add hzero]
        split_ifs with hempty
        · have hdata : decode data = 0 := by
            rw [← decode_encodeNat (decode data), List.isEmpty_iff.mp hempty]
            rfl
          have hb : b ≠ 0 := by
            rintro rfl
            simp [hdata] at hzero
          simp [hdata, hb]
        · rfl

theorem decode_eq_decode_iff {data data' : List UInt8} :
    decode data = decode data' ↔ strip data = strip data' := by
  constructor
  · intro h
    rw [← encodeNat_decode, ← encodeNat_decode, h]
  · intro h
    rw [← decode_encodeNat (decode data), ← decode_encodeNat (decode data'),
      encodeNat_decode, encodeNat_decode, h]

theorem strip_replicate_append (k : Nat) (data : List UInt8) :
    strip (List.replicate k 0 ++ data) = strip data := by
  induction k with
  | zero => rfl
  | succ k ih => exact ih

theorem decode_of_encodes {data : List UInt8} {n : Nat} (h : Encodes data n) :
    decode data = n := by
  obtain ⟨k, rfl⟩ := h
  rw [decode_eq_decode_iff.mpr (strip_replicate_append k _), decode_encodeNat]

theorem minimal_encodeNat (n : Nat) : Minimal (encodeNat n) := by
  have hstrip : strip (encodeNat n) = encodeNat n := by
    rw [← encodeNat_decode, decode_encodeNat]
  intro hhead
  have hnot := List.head?_dropWhile_not (fun b : UInt8 => decide (b = 0)) (encodeNat n)
  rw [strip] at hstrip
  rw [hstrip, hhead] at hnot
  simp at hnot

/-! ## Length -/

/-- **The length counts digits**: `k` bytes suffice for the numbers below
`256 ^ k` and for no others. -/
theorem length_encodeNat_le_iff {n k : Nat} : (encodeNat n).length ≤ k ↔ n < 256 ^ k := by
  induction k generalizing n with
  | zero =>
      by_cases hn : n = 0
      · simp [hn]
      · simp [encodeNat_of_ne_zero hn, hn]
  | succ k ih =>
      by_cases hn : n = 0
      · simp [hn]
      · rw [encodeNat_of_ne_zero hn, List.length_append, List.length_singleton,
          Nat.add_le_add_iff_right, ih, pow_succ, Nat.div_lt_iff_lt_mul (by decide)]

theorem length_encodeNat_mono {m n : Nat} (h : m ≤ n) :
    (encodeNat m).length ≤ (encodeNat n).length :=
  length_encodeNat_le_iff.mpr (h.trans_lt (length_encodeNat_le_iff.mp le_rfl))

theorem encode_of_nonneg {x : Int} (hx : 0 ≤ x) : encode x = .ok (encodeNat x.toNat) :=
  if_neg (not_lt.mpr hx)

end Bytes

end Blum
