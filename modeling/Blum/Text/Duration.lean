import Blum.Text.FixedPoint

/-! # Durations

A duration in the largest unit of which it is at least one: seconds, milliseconds, or else
microseconds. -/

namespace Blum.Text

def duration (seconds : Float) : String :=
  if seconds ≥ 1 then fixedPoint seconds 2 ++ "s"
  else if seconds ≥ 0.001 then fixedPoint (seconds * 1000) 2 ++ "ms"
  else fixedPoint (seconds * 1000000) 1 ++ "us"

end Blum.Text
