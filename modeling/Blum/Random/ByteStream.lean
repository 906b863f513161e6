import Blum.Random.Source

/-! # Byte streams

The streams that a source can be made of: a given string of bytes once, the same string over
and over, and the output of a linear congruential generator. The generator is read at any
position directly: a step is an affine map of 64-bit words, and powers of affine maps are
affine. -/

namespace Blum.ByteStream

structure Affine where
  scale : UInt64
  shift : UInt64
  deriving DecidableEq, Repr

namespace Affine

def apply (f : Affine) (x : UInt64) : UInt64 :=
  f.scale * x + f.shift

/-- The map that applies `g` and then `f`. -/
def comp (f g : Affine) : Affine :=
  ⟨f.scale * g.scale, f.scale * g.shift + f.shift⟩

def iterate (f : Affine) (n : Nat) : Affine :=
  if n = 0 then ⟨1, 0⟩
  else
    let half := iterate (f.comp f) (n / 2)
    if n % 2 = 0 then half else half.comp f
termination_by n
decreasing_by omega

end Affine

def generatorStep : Affine :=
  ⟨6364136223846793005, 1442695040888963407⟩

/-- The bytes of the generator: the top eight bits of each state after the seed. -/
def congruential (seed : UInt64) (position : Nat) : UInt8 :=
  ((generatorStep.iterate (position + 1)).apply seed >>> 56).toUInt8

/-- The bytes of a string, and zeros after its end. -/
def ofBytes (data : Array UInt8) (position : Nat) : UInt8 :=
  data.getD position 0

def cycle (data : Array UInt8) (position : Nat) : UInt8 :=
  data.getD (position % data.size) 0

end Blum.ByteStream
