import Blum.Command.Run

/-! # The program

The command line with the clock of the machine and random bytes of the operating system. All
that a run prints and how it ends is decided by `Blum.Command.run`. -/

namespace Blum

/-- How many random bytes one run of the program can use. -/
def poolSize : Nat := 1 <<< 24

def sourceOfPool (pool : ByteArray) : Source where
  byteAt i := pool[i]?.getD 0
  byteLimit := pool.size
  callLimit := pool.size

def secondsNow : IO Float := do
  return (Float.ofNat (← IO.monoNanosNow)) / 1000000000

end Blum

def main (args : List String) : IO UInt32 := do
  let pool ← IO.getRandomBytes (USize.ofNat Blum.poolSize)
  let report ← Blum.Command.run Blum.secondsNow args (Blum.sourceOfPool pool)
  IO.print report.output
  IO.eprint report.errors
  match report.ending with
  | .ok code => return UInt32.ofNat code
  | .error fault =>
    IO.eprintln ((fault.raised Blum.Machine.digits).message.getD "The run was ended by a fault.")
    return 1
