import Blum.Fault

/-! # Byte encoding of integers

Non-negative integers as byte strings, most significant byte first and without a sign byte.
Writing is minimal: zero is the empty string, and no other string starts with a zero byte.
Reading accepts any string, so `encodeNat (decode b)` is `b` less its leading zeros. -/

namespace Blum.Bytes

/-- Puts the base-256 digits of `n` in front of `rest`. -/
def digitsOnto (n : Nat) (rest : List UInt8) : List UInt8 :=
  if n = 0 then rest
  else digitsOnto (n / 256) (UInt8.ofNat (n % 256) :: rest)
termination_by n
decreasing_by omega

/-- The shortest byte string of a natural number. -/
def encodeNat (n : Nat) : List UInt8 :=
  digitsOnto n []

def encode (x : Int) : Except Fault (List UInt8) :=
  if x < 0 then .error .negativeEncoding else .ok (encodeNat x.toNat)

def decode (data : List UInt8) : Nat :=
  data.foldl (fun n b => n * 256 + b.toNat) 0

end Blum.Bytes
