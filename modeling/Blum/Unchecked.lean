import Blum.Arith.Mixed
import Blum.Arith.Symbol
import Blum.Bytes
import Blum.Text.Duration

/-! # The helpers on values of any type

The arithmetic below the engine is open to callers too, and nothing checks what they pass.
Truth values count as 0 and 1. Any other value that is no integer makes a helper fail, each at
the step at which it matters. -/

namespace Blum.Unchecked

def eulerSymbol (a p : Argument) : Except Fault Int := do
  Blum.eulerSymbol (← a.count) (← p.count)

def blumRoot (a p : Argument) : Except Fault Int := do
  Blum.blumRoot (← a.count) (← p.count)

def symbolOperand : Argument → Except Fault Int
  | .float _ => .error .inexactOperand
  | a =>
    match a.count? with
    | some i => .ok i
    | none => .error .undefinedOperand

def jacobiSymbol (a n : Argument) : Except Fault Int := do
  Blum.jacobiSymbol (← symbolOperand a) (← symbolOperand n)

/-- The shortest byte string of a number. The sign is looked at first, and a double has one. -/
def encode (x : Argument) : Except Fault (List UInt8) := do
  if ← x.isBelow 0 then throw .negativeEncoding
  match x with
  | .float _ => throw .noEncoding
  | x => Bytes.encode (← x.count)

def byteOf (a : Argument) : Except Fault UInt8 := do
  let i ← a.count
  if i < 0 ∨ 0x100 ≤ i then throw .notByte
  return UInt8.ofNat i.toNat

def decode : Argument → Except Fault Nat
  | .bytes data => .ok (Bytes.decode data)
  | .list items => do return Bytes.decode (← items.mapM byteOf)
  | _ => .error .operandType

/-- An integer as a double, if there is one close to it. -/
def toDouble (i : Int) : Except Fault Float :=
  if i.natAbs < Quantity.doubleBound then .ok (Float.ofInt i) else .error .tooLarge

/-- A duration with its unit. An integer is never a matter of milliseconds. -/
def duration : Argument → Except Fault String
  | .float x => .ok (Text.duration x)
  | a => do
    let i ← a.count
    if 1 ≤ i then return Text.fixedPoint (← toDouble i) 2 ++ "s"
    else return Text.fixedPoint (← toDouble (i * 1000000)) 1 ++ "us"

end Blum.Unchecked
