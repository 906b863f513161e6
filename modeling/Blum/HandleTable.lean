import Blum.Request

/-! # The table of handles

The engines that a registry owns, in a table under their handles, and a counter for the next
handle. Requests work on the two in place: whatever a request has done to them before it fails
stays done. -/

namespace Blum

structure HandleTable where
  entries : List (Int × Engine) := []
  /-- The handle of the next engine. -/
  next : Nat := 1
  deriving DecidableEq

namespace HandleTable

def engine? (t : HandleTable) (handle : Int) : Option Engine :=
  t.entries.lookup handle

def contains (t : HandleTable) (handle : Int) : Bool :=
  (t.engine? handle).isSome

def size (t : HandleTable) : Nat :=
  t.entries.length

def remove (t : HandleTable) (handle : Int) : HandleTable :=
  { t with entries := t.entries.filter fun entry => entry.1 ≠ handle }

def put (t : HandleTable) (handle : Int) (e : Engine) : HandleTable :=
  { t with entries := (handle, e) :: (t.remove handle).entries }

def count (t : HandleTable) : HandleTable :=
  { t with next := t.next + 1 }

end HandleTable

/-- A table, and what its requests use up and leave behind. -/
structure Host where
  table : HandleTable
  workspace : Workspace

/-- A computation on a table. What it does to the table stays when it fails. -/
abbrev Hosted (α : Type) := Stateful Host α

namespace Hosted

def ofLogged (work : Logged α) : Hosted α := fun ⟨table, workspace⟩ =>
  let (result, workspace) := work workspace
  (result, ⟨table, workspace⟩)

instance : MonadLift Logged Hosted := ⟨ofLogged⟩

def table : Hosted HandleTable := fun host => (.ok host.table, host)

def change (f : HandleTable → HandleTable) : Hosted Unit := fun ⟨table, workspace⟩ =>
  (.ok (), ⟨f table, workspace⟩)

/-- Works on a table that is passed on by hand. -/
def on (work : Hosted α) (table : HandleTable) : Logged (α × HandleTable) := fun workspace =>
  let (result, host) := work ⟨table, workspace⟩
  (result.map (·, host.table), host.workspace)

end Hosted

namespace HandleTable

/-- Registers an engine. The counter moves first, then the entry is made and reported. -/
def register (e : Engine) : Hosted Nat := do
  let id := (← Hosted.table).next
  Hosted.change count
  Hosted.change (put · id e)
  Logged.record (.registered id)
  return id

def engine (handle : Int) : Hosted Engine := do
  match (← Hosted.table).engine? handle with
  | some e => return e
  | none => throw (.unknownHandle handle)

def createPrivate (n : List UInt8) (r s : Argument) (p q u : List UInt8) : Hosted Nat := do
  let e ← Engine.ofRequest (.priv (operand n) r s (operand p) (operand q) (operand u))
  register e

def createPublic (n : List UInt8) (r s : Argument) : Hosted Nat := do
  let e ← Engine.ofRequest (.pub (operand n) r s)
  register e

def createRandom [Machine] (bits : Argument) : Hosted Nat := do
  let e ← (Engine.generate { bits } : Logged Engine)
  register e

def apply (handle : Int) (x : List UInt8) : Hosted (List UInt8) := do
  let e ← engine handle
  Bytes.encode (← e.apply (Bytes.decode x))

def invert (handle : Int) (y : List UInt8) : Hosted (List UInt8) := do
  let e ← engine handle
  Bytes.encode (← e.invert (Bytes.decode y))

def accepts (handle : Int) (x : List UInt8) : Hosted Bool := do
  let e ← engine handle
  e.accepts (Bytes.decode x)

def modulus (handle : Int) : Hosted (List UInt8) := do
  let e ← engine handle
  Bytes.encode e.modulus

/-- Takes an entry out of the table. The entry is looked for before it is missed. -/
def release (handle : Int) : Hosted Unit := do
  let found := (← Hosted.table).engine? handle
  Hosted.change (remove · handle)
  if found.isNone then throw (.unknownHandle handle)
  Logged.record (.released handle.toNat)

def perform [Machine] : Request → Hosted Answer
  | .createPrivate n r s p q u => .handle <$> createPrivate n r s p q u
  | .createPublic n r s => .handle <$> createPublic n r s
  | .createRandom bits _ => .handle <$> createRandom bits
  | .apply handle x => .bytes <$> apply handle x
  | .invert handle y => .bytes <$> invert handle y
  | .accepts handle x => .truth <$> accepts handle x
  | .modulus handle => .bytes <$> modulus handle
  | .engine handle => .engine <$> engine handle
  | .release handle => do
    release handle
    return .released
  | .contains handle => do return .truth ((← Hosted.table).contains handle)

/-- Serves one request. The table is what the request has made of it, also when it fails. -/
def serve [Machine] (t : HandleTable) (request : Request) : Outcome × HandleTable :=
  let (result, host) := perform request ⟨t, { source := request.source }⟩
  (⟨Machine.digits.raised result, host.workspace.log.toList⟩, host.table)

def serveAt [Machine] (ts : List HandleTable) (position : Nat) (request : Request) :
    Option (Outcome × List HandleTable) := do
  let t ← ts[position]?
  let (outcome, t) := t.serve request
  return (outcome, ts.set position t)

end HandleTable

end Blum
