import Blum.Request

/-! # The registry

What a table of handles amounts to for its callers. Handle `i` names the `i`-th engine that was
ever registered, so a released handle stays unused and cannot come to mean a newer engine. There
is no counter here and no table, and a request that fails is one that has not taken place. It is
tables that programs work on; that a table behaves like a registry is a theorem about it. -/

namespace Blum

/-- Every engine that was ever registered, in order. A released one leaves an empty slot. -/
structure Registry where
  slots : List (Option Engine) := []
  deriving DecidableEq

namespace Registry

def slotOf? (handle : Int) : Option Nat :=
  if 0 < handle then some (handle.toNat - 1) else none

def engine? (g : Registry) (handle : Int) : Option Engine := do
  let i ← slotOf? handle
  let slot ← g.slots[i]?
  slot

def engine (g : Registry) (handle : Int) : Except Fault Engine :=
  match g.engine? handle with
  | some e => .ok e
  | none => .error (.unknownHandle handle)

def contains (g : Registry) (handle : Int) : Bool :=
  (g.engine? handle).isSome

def size (g : Registry) : Nat :=
  g.slots.countP Option.isSome

def insert (g : Registry) (e : Engine) : Registry :=
  ⟨g.slots ++ [some e]⟩

def erase (g : Registry) (handle : Int) : Registry :=
  match slotOf? handle with
  | some i => ⟨g.slots.set i none⟩
  | none => g

def register (g : Registry) (e : Engine) : Logged (Nat × Registry) := do
  let id := g.slots.length + 1
  Logged.record (.registered id)
  return (id, g.insert e)

def createPrivate (g : Registry) (n : List UInt8) (r s : Argument) (p q u : List UInt8) :
    Logged (Nat × Registry) := do
  let e ← Engine.ofRequest (.priv (operand n) r s (operand p) (operand q) (operand u))
  g.register e

def createPublic (g : Registry) (n : List UInt8) (r s : Argument) :
    Logged (Nat × Registry) := do
  let e ← Engine.ofRequest (.pub (operand n) r s)
  g.register e

def createRandom [Machine] (g : Registry) (bits : Argument) : Logged (Nat × Registry) := do
  let e ← Engine.generate { bits }
  g.register e

def apply (g : Registry) (handle : Int) (x : List UInt8) : Except Fault (List UInt8) := do
  let e ← g.engine handle
  Bytes.encode (← e.apply (Bytes.decode x))

def invert (g : Registry) (handle : Int) (y : List UInt8) : Except Fault (List UInt8) := do
  let e ← g.engine handle
  Bytes.encode (← e.invert (Bytes.decode y))

def accepts (g : Registry) (handle : Int) (x : List UInt8) : Except Fault Bool := do
  let e ← g.engine handle
  e.accepts (Bytes.decode x)

def modulus (g : Registry) (handle : Int) : Except Fault (List UInt8) := do
  let e ← g.engine handle
  Bytes.encode e.modulus

def release (g : Registry) (handle : Int) : Logged Registry := do
  let _ ← g.engine handle
  Logged.record (.released handle.toNat)
  return g.erase handle

/-- Does what a request asks for, and returns the registry afterwards. -/
def perform [Machine] (g : Registry) : Request → Logged (Answer × Registry)
  | .createPrivate n r s p q u => do
    let (id, g) ← g.createPrivate n r s p q u
    return (.handle id, g)
  | .createPublic n r s => do
    let (id, g) ← g.createPublic n r s
    return (.handle id, g)
  | .createRandom bits _ => do
    let (id, g) ← g.createRandom bits
    return (.handle id, g)
  | .apply handle x => do return (.bytes (← g.apply handle x), g)
  | .invert handle y => do return (.bytes (← g.invert handle y), g)
  | .accepts handle x => do return (.truth (← g.accepts handle x), g)
  | .modulus handle => do return (.bytes (← g.modulus handle), g)
  | .engine handle => do return (.engine (← g.engine handle), g)
  | .release handle => do return (.released, ← g.release handle)
  | .contains handle => return (.truth (g.contains handle), g)

/-- Serves one request. A request that fails leaves the registry as it was. -/
def serve [Machine] (g : Registry) (request : Request) : Outcome × Registry :=
  match g.perform request { source := request.source } with
  | (.ok (answer, g'), workspace) => (⟨.ok answer, workspace.log.toList⟩, g')
  | (.error fault, workspace) => (⟨.error fault, workspace.log.toList⟩, g)

end Registry

end Blum
