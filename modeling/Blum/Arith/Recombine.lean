import Blum.Arith.Power

/-! # Recombination of residues

From a residue modulo `p` and one modulo `q` to the number modulo `p * q` that has both, by
Garner's formula. The formula takes a single remainder, modulo `q`, and needs no reduction at
the end. -/

namespace Blum

/-- The number that leaves `xp` modulo `p` and `xq` modulo `q`, where `u` inverts `p` modulo
`q`. -/
def recombine (xp xq p q u : Int) : Except Fault Int := do
  let k ← remainder ((xq - xp) * u) q
  return xp + p * k

end Blum
