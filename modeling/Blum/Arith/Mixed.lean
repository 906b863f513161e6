import Blum.Arith.Recombine
import Blum.Text.Template

/-! # Arithmetic on values of any type

The formula of `recombine` for operands that nobody has checked. Numbers may be doubles. Text,
bytes and lists can be repeated, and a repeated text that is divided becomes a template for the
divisor. None of this yields an integer in the end, but it decides which step fails, and the
steps are taken in the order of the formula. -/

namespace Blum

/-- A number on the way through a formula. The value of a double is not followed, since no
failure depends on it. -/
inductive Quantity where
  | whole (value : Int)
  | double
  deriving DecidableEq, Repr

namespace Quantity

/-- The least natural number that no double comes close to. -/
def doubleBound : Nat := 0x3fffffffffffff <<< 970

/-- An operation on two numbers. If one of them is a double, the other has to become one. -/
def combine (f : Int → Int → Int) : Quantity → Quantity → Except Fault Quantity
  | .whole a, .whole b => .ok (.whole (f a b))
  | .double, .double => .ok .double
  | .whole a, .double | .double, .whole a =>
    if a.natAbs < doubleBound then .ok .double else .error .tooLarge

end Quantity

namespace Argument

def quantity : Argument → Except Fault Quantity
  | .float _ => .ok .double
  | a => .whole <$> a.count

def isZero : Argument → Bool
  | .float x => x == 0
  | a => a.count? = some 0

def length? : Argument → Option Nat
  | .text t => some t.length
  | .bytes data => some data.length
  | .list items => some items.length
  | _ => none

def uncountable : Argument → Fault
  | .list _ => .outOfMemory
  | _ => .tooLarge

end Argument

/-- How often something of a given length is repeated by a number: not at all, if the number is
negative. The result has to fit into memory. -/
def copies [Machine] (length : Nat) (i : Int) (uncountable : Fault) : Except Fault Nat := do
  if i < -(indexBound : Int) ∨ indexBound ≤ i then throw .tooLarge
  let size := length * i.toNat
  if indexBound ≤ size then throw uncountable
  if Machine.memory < size then throw .outOfMemory
  return i.toNat

inductive Product where
  | number (value : Quantity)
  /-- A value that is repeated. -/
  | repeated (value : Argument) (copies : Nat)

inductive Remainder where
  | number (value : Quantity)
  /-- A filled template of a given size. -/
  | text (size : Nat)

namespace Product

def of [Machine] (k : Quantity) (a : Argument) : Except Fault Product :=
  match a.length?, k with
  | none, _ => do return .number (← k.combine (· * ·) (← a.quantity))
  | some length, .whole i => do return .repeated a (← copies length i a.uncountable)
  | some _, .double => .error .operandType

/-- The remainder of a product. Nothing but a number or a template has one. -/
def remainder [Machine] (t : Product) (q : Argument) : Except Fault Remainder :=
  match t with
  | .number a => do
    match a, ← q.quantity with
    | .whole x, .whole y => return .number (.whole (← Blum.remainder x y))
    | a, b =>
      let r ← a.combine (· + ·) b
      if q.isZero then throw .divisionByZero
      return .number r
  | .repeated (.text t) n => .text <$> Text.Template.size .text t.toList n q
  | .repeated (.bytes data) n =>
    .text <$> Text.Template.size .bytes (Text.charsOfBytes data) n q
  | .repeated _ _ => .error .operandType

end Product

/-- The formula of `recombine` on values of any type. Where no integer comes out there is no
answer. -/
def recombineAny [Machine] (xp xq p q u : Argument) : Except Fault Int := do
  let difference ← Quantity.combine (· - ·) (← xq.quantity) (← xp.quantity)
  let scaled ← Product.of difference u
  match ← scaled.remainder q with
  | .text size =>
    let _ ← copies size (← p.count) .tooLarge
    throw .operandType
  | .number k =>
    match ← Product.of k p with
    | .repeated _ _ => throw .operandType
    | .number multiple =>
      match ← Quantity.combine (· + ·) (← xp.quantity) multiple with
      | .whole x => return x
      | .double => throw .operandType

end Blum
