import Blum.Key.Private
import Blum.Key.Settings
import Blum.Limits
import Blum.Log
import Blum.Prime.Test

/-! # Key generation

A key pair comes from two searches for primes of half the size. Candidates have their two top
bits and their two low bits set: the top bits make the product exactly as long as both factors
together, the low bits make every candidate 3 modulo 4. The second search is repeated while it
finds the first prime again. Both loops are bounded. -/

namespace Blum

structure Workspace where
  source : Source
  log : Array LogRecord := #[]

/-- A computation that draws random bytes and writes log records. Both effects stay when it
fails. -/
abbrev Logged (α : Type) := Stateful Workspace α

namespace Logged

def ofDraw (d : Draw α) : Logged α := fun ⟨source, log⟩ =>
  let (result, source) := d source
  (result, ⟨source, log⟩)

instance : MonadLift Draw Logged := ⟨ofDraw⟩

def record (event : LogRecord) : Logged Unit := fun w =>
  (.ok (), { w with log := w.log.push event })

end Logged

namespace Generate

/-- The bits that every candidate of a size has set. -/
def mask (bits : Nat) : Nat :=
  3 <<< (bits - 2) ||| 3

def candidate (bits : Nat) : Draw Nat := do
  let v ← Draw.exactInteger bits
  return v ||| mask bits

/-- Tries candidates until one is prime, `left` of them at most. The candidate at hand is
number `k`. -/
def searchFrom (bits : Nat) (settings : Settings) : Nat → Nat → Logged Nat
  | 0, _ => do
    Logged.record (.searchExhausted settings.primeAttempts bits)
    throw (.searchExhausted bits settings.primeAttempts)
  | left + 1, k => do
    let c ← candidate bits
    if ← Prime.isPrime c settings.errorRate then
      Logged.record (.primeFound bits k)
      return c
    else searchFrom bits settings left (k + 1)

/-- How far a number can be shifted to the left. A number has at most
2305843009213693945 digits of 30 bits, and a shifted one needs a digit more than the shift
fills. -/
def maxShift : Int := 30 * 2305843009213693944

/-- The memory that a shift fills, at four bytes for 30 bits. -/
def shiftSize (distance : Int) : Int := distance / 30 * 4

/-- A prime of exactly the given size that is 3 modulo 4. Below two bits there is no room for
the mask, beyond the largest shift the mask is no number, and long before that it does not fit
into memory. -/
def search [Machine] (bits : Int) (settings : Settings) : Logged Nat := do
  if bits < 2 then throw .negativeShift
  if maxShift < bits - 2 then throw .tooLarge
  if Machine.memory < shiftSize (bits - 2) then throw .outOfMemory
  let attempts ← settings.primeAttempts.count
  searchFrom bits.toNat settings attempts.toNat 1

/-- Searches for a second prime other than `p`, `left` times at most. -/
def searchOther [Machine] (p : Nat) (settings : Settings) : Nat → Logged Nat
  | 0 => do
    Logged.record (.pairExhausted settings.pairAttempts)
    throw .pairExhausted
  | left + 1 => do
    let bits ← settings.secondBits
    let q ← search bits settings
    if q = p then searchOther p settings left else return q

def privateKey [Machine] (settings : Settings) : Logged PrivateKey := do
  let bits ← settings.firstBits
  let p ← search bits settings
  let attempts ← settings.pairAttempts.count
  let q ← searchOther p settings attempts.toNat
  let key ← PrivateKey.ofFactors p q 1 1
  Logged.record (.keyGenerated (bitLength key.n.toNat))
  return key

end Generate

end Blum
