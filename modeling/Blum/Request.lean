import Blum.Bytes
import Blum.Engine

/-! # Requests

What callers ask who hold handles and exchange bytes and numbers only. -/

namespace Blum

/-- An integer that travelled as bytes. -/
def operand (data : List UInt8) : Argument :=
  .int (Bytes.decode data)

/-- What can be asked of a registry. Integers travel as bytes, except for selectors, sizes and
handles. -/
inductive Request where
  | createPrivate (n : List UInt8) (r s : Argument) (p q u : List UInt8)
  | createPublic (n : List UInt8) (r s : Argument)
  /-- Creation of a fresh key, with the source that it draws from. -/
  | createRandom (bits : Argument) (source : Source)
  | apply (handle : Int) (x : List UInt8)
  | invert (handle : Int) (y : List UInt8)
  | accepts (handle : Int) (x : List UInt8)
  | modulus (handle : Int)
  | engine (handle : Int)
  | release (handle : Int)
  | contains (handle : Int)

def Request.source : Request → Source
  | .createRandom _ source => source
  | _ => Source.empty

inductive Answer where
  | handle (id : Nat)
  | bytes (data : List UInt8)
  | truth (value : Bool)
  | engine (value : Engine)
  | released
  deriving DecidableEq

/-- The answer to a request and the records that were written on the way to it. -/
structure Outcome where
  result : Except Fault Answer
  log : List LogRecord

end Blum
