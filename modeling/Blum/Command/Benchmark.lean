import Blum.Command.Demo

/-! # The benchmark

Times key generation and the three operations of an engine on random elements. Roots are
squared again, and the run stops if that does not give the elements back. Times per operation
are quotients by the number of operations, whatever that number is. -/

namespace Blum.Command

def drawElements (engine : Engine) : (count : Nat) → (drawn : List Int) → Draw (List Int)
  | 0, drawn => return drawn.reverse
  | count + 1, drawn => do
    let y ← engine.randomElement
    drawElements engine count (y :: drawn)

def perOperation (time : Float) (operations : Int) : Except Fault Float :=
  let count := Float.ofInt operations
  if count.isInf then .error .tooLarge
  else if operations = 0 then .error .divisionByZero
  else .ok (time / count)

def tableLine (label total perOp : String) : String :=
  "  " ++ Text.padRight 20 label ++ Text.padLeft 12 total ++ Text.padLeft 12 perOp

def timesLine [Monad m] (label : String) (time : Float) (operations : Int) :
    Script m Unit := do
  let share ← perOperation time operations
  Script.say (tableLine label (Text.duration time) (Text.duration share))

def benchmark [Machine] [Monad m] (now : m Float) (bits operations : Argument) : Script m Unit := do
  banner s!"Rabin Benchmark ({bits.shown}-bit modulus, {operations.shown} ops)"
  let (engine, generateTime) ←
    Script.timed now (Engine.generate { bits } : Logged Engine)
  let count ← operations.count
  let elements ← (drawElements engine count.toNat [] : Logged (List Int))
  let (roots, invertTime) ← Script.timed now (elements.mapM engine.invert : Except Fault _)
  let (images, applyTime) ← Script.timed now (roots.mapM engine.apply : Except Fault _)
  if images ≠ elements then throw .roundTrip
  let (_, checkTime) ← Script.timed now (elements.mapM engine.accepts : Except Fault _)
  Script.say ""
  Script.say (tableLine "Operation" "Total" "Per op")
  Script.say ("  " ++ "".pushn '─' 44)
  Script.say (tableLine "Key generation" (Text.duration generateTime) "")
  timesLine "apply" applyTime count
  timesLine "invert" invertTime count
  timesLine "validity check" checkTime count

end Blum.Command
