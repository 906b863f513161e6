import Blum.Fault
import Blum.Key.Selector

/-! # Public keys

A public key is an odd modulus together with the two selectors of the roots that inversion
returns. Nothing is known about how the modulus factors. -/

namespace Blum

structure PublicKey where
  n : Int
  /-- The selector modulo the first factor. -/
  r : Selector
  /-- The selector modulo the second factor. -/
  s : Selector
  one_lt : 1 < n
  odd : n % 2 = 1
  deriving DecidableEq

namespace PublicKey

def ofInts (n r s : Int) : Except Fault PublicKey :=
  if hn : 1 < n ∧ n % 2 = 1 then
    match Selector.ofInt? r, Selector.ofInt? s with
    | none, _ => .error (.mismatch (.firstSelector r))
    | _, none => .error (.mismatch (.secondSelector s))
    | some r, some s => .ok ⟨n, r, s, hn.1, hn.2⟩
  else .error (.mismatch .modulus)

/-- Checks parts of unknown type. They are found to be integers before anything else. -/
def ofArguments (n r s : Argument) : Except Fault PublicKey := do
  let n ← n.integer "n"
  let r ← r.integer "r"
  let s ← s.integer "s"
  ofInts n r s

end PublicKey

end Blum
