import Blum.Fault

/-! # Key generation settings

The size of the modulus and the bounds on the search for its factors. Settings are checked when
they are made. They can be changed afterwards without a new check, so whoever uses them still
has to be ready for any value. -/

namespace Blum

structure Settings where
  /-- The size of the modulus in bits. -/
  bits : Argument
  /-- How many candidates a search for one prime may try. -/
  primeAttempts : Argument := .int 20000
  /-- How often the second prime may be drawn. -/
  pairAttempts : Argument := .int 100
  /-- The tolerated probability that a candidate is taken for a prime and is none. -/
  errorRate : Argument := .float 1e-6
  deriving DecidableEq

namespace Settings

def requireAtLeast (bound : Nat) (value : Argument) (which : BadSetting) :
    Except Fault Unit := do
  if ← value.isBelow bound then throw (.badSetting which)

def check (s : Settings) : Except Fault Unit := do
  requireAtLeast 16 s.bits .bits
  requireAtLeast 1 s.primeAttempts .primeAttempts
  requireAtLeast 1 s.pairAttempts .pairAttempts
  if !(← s.errorRate.insideUnit) then throw (.badSetting .errorRate)

def firstBits (s : Settings) : Except Fault Int := do
  let bits ← s.bits.count
  return bits / 2

def secondBits (s : Settings) : Except Fault Int := do
  let bits ← s.bits.count
  let first ← s.firstBits
  return bits - first

def shown (limit : DigitLimit) (s : Settings) : Except Fault String := do
  let first ← s.firstBits
  let second ← s.secondBits
  limit.write
    (first :: second :: (s.bits.numbers ++ s.primeAttempts.numbers ++ s.pairAttempts.numbers))
    (s!"KeyGenParams(bit_length={s.bits.shown}, p_bits={first}, q_bits={second}, "
      ++ s!"max_prime_attempts={s.primeAttempts.shown}, "
      ++ s!"max_pair_attempts={s.pairAttempts.shown})")

end Settings

end Blum
