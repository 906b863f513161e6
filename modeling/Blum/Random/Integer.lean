import Blum.Arith.Power
import Blum.Bytes
import Blum.Random.Source

/-! # Random integers

Integers of a given number of bits, of exactly that many bits, and from a range. Whole bytes
are drawn first; the bits that do not fill a byte come last, from the top of one more byte. A
number from a range is found by rejection, so every number that is accepted is as likely as
every other. -/

namespace Blum.Draw

/-- The integer of `width` bits that its low bytes and its partial top byte make up. -/
def assemble (width : Nat) (low top : List UInt8) : Nat :=
  Bytes.decode (top.map (· >>> UInt8.ofNat (8 - width % 8)) ++ low)

def integer (width : Nat) : Draw Nat := do
  let low ← bytes (width / 8)
  if width % 8 = 0 then
    return assemble width low []
  else
    let top ← bytes 1
    return assemble width low top

def exactInteger (width : Nat) : Draw Nat := do
  let v ← integer (width - 1)
  return v ||| 1 <<< (width - 1)

theorem consumes_integer (width : Nat) : Consumes (integer width) := by
  refine (consumes_bytes _).bind fun low => ?_
  split
  · exact steady_pure _
  · exact ((consumes_bytes 1).bind fun top => steady_pure _).steady

/-- One attempt at a number `low + v` with `v ≤ span` that passes `accept`. -/
def attempt (low span : Nat) (accept : Nat → Bool) : Draw (Option Nat) := do
  let v ← integer (bitLength span)
  return if v ≤ span ∧ accept (low + v) then some (low + v) else none

theorem consumes_attempt (low span : Nat) (accept : Nat → Bool) :
    Consumes (attempt low span accept) :=
  (consumes_integer _).bind fun _ => steady_pure _

def choose (low span : Nat) (accept : Nat → Bool) : Draw Nat :=
  untilSome (attempt low span accept) (consumes_attempt low span accept)

end Blum.Draw
