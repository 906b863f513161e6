import Blum.Command.Session
import Blum.Engine
import Blum.HandleTable
import Blum.Text.Integer

/-! # The demonstration

A walk through the library: a fresh key, a random square and its root, an engine without the
factors, and a registry that serves bytes. Each part checks what it shows. -/

namespace Blum.Command

def screenWidth : Nat := 70

def banner [Monad m] (title : String) : Script m Unit := do
  Script.say ("".pushn '=' screenWidth)
  Script.say title
  Script.say ("".pushn '=' screenWidth)

def heading [Monad m] (title : String) : Script m Unit := do
  Script.say ""
  Script.say (Text.center screenWidth title '─')

def truthWord (value : Bool) : String :=
  if value then "True" else "False"

/-- A label and its value, which ends at a fixed column. -/
def row [Monad m] (label value : String) : Script m Unit :=
  Script.say ("  " ++ Text.padRight 16 label ++ Text.padLeft 12 value)

/-- The first forty characters of a number in base 16. -/
def hexStart (n : Int) : String :=
  String.ofList ((Text.hex n.toNat).toList.take 40) ++ "..."

def showKey [Machine] [Monad m] (now : m Float) (bits : Argument) : Script m Engine := do
  heading "Key Generation"
  let (engine, time) ← Script.timed now (Engine.generate { bits } : Logged Engine)
  let key := engine.publicKey
  row "Modulus bits:" (toString (bitLength engine.modulus.toNat))
  row "Selectors:" s!"r={key.r.toInt}, s={key.s.toInt}"
  row "Time:" (Text.duration time)
  return engine

/-- Inverts a random element, maps the root forward and back again, and returns the root and
the element. -/
def showMaps [Monad m] (engine : Engine) : Script m (Int × Int) := do
  heading "Apply / Invert"
  let y ← (engine.randomElement : Logged Int)
  let x ← engine.invert y
  Script.say s!"  y (residue):    {hexStart y}"
  Script.say s!"  x = invert(y):  {hexStart x}"
  let forward ← engine.apply x
  row "apply(x) == y:" (truthWord (forward == y))
  let again ← engine.applyThenInvert x
  Script.say ("  invert(apply(x)) == x: " ++ Text.padLeft 5 (truthWord (again == x)))
  return (x, y)

def showPublic [Monad m] (engine : Engine) (x y : Int) : Script m Unit := do
  heading "Public-Only Engine"
  let weak := engine.publicOnly
  let forward ← weak.apply x
  row "apply agrees:" (truthWord (forward == y))
  let ofElement ← weak.check y
  row "check(y):" ofElement.word
  let ofLast ← weak.check (engine.modulus - 1)
  row "check(n - 1):" ofLast.word

def showHandle [Monad m] (engine : Engine) (x : Int) : Script m Unit := do
  heading "Handle Boundary"
  let key := engine.publicKey
  let n ← Bytes.encode engine.modulus
  let (id, table) ←
    (HandleTable.createPublic n (.int key.r.toInt) (.int key.s.toInt)).on {}
  let x ← Bytes.encode x
  let (encoded, table) ← (HandleTable.apply id x).on table
  row "Handle id:" (toString id)
  row "Output bytes:" (toString encoded.length)
  let (_, table) ← (HandleTable.release id).on table
  row "Live handles:" (toString table.size)

def demo [Machine] [Monad m] (now : m Float) (bits : Argument) : Script m Unit := do
  banner "Rabin Trapdoor Permutation - Demo"
  let engine ← showKey now bits
  let (x, y) ← showMaps engine
  showPublic engine x y
  showHandle engine x

end Blum.Command
