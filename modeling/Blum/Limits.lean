/-! # Limits

What a run meets in its surroundings: how much fits into memory, and how many digits a number
may have where it is written or read. The limit on digits belongs to the interpreter: not every
one has it, and where there is one it can be switched off. Sizes that no machine word can count
are refused in one way, and sizes that can be counted but not stored in another. -/

namespace Blum

/-- How many decimal digits a number may have in text, if there is a bound. -/
abbrev DigitLimit := Option Nat

namespace DigitLimit

/-- The number has no more digits than may be written. -/
def Admits (limit : DigitLimit) (i : Int) : Prop :=
  ∀ d ∈ limit, i.natAbs < Nat.pow 10 d

instance (limit : DigitLimit) (i : Int) : Decidable (limit.Admits i) :=
  inferInstanceAs (Decidable (∀ d ∈ limit, i.natAbs < Nat.pow 10 d))

end DigitLimit

/-- The machine that a program runs on, and how its interpreter is set up. -/
class Machine where
  /-- How large a value may grow, in bytes or characters. -/
  memory : Nat
  roomy : 0x1000 ≤ memory
  digits : DigitLimit

/-- A machine of 64 GiB, where numbers in text have 4300 digits at most. -/
instance Machine.usual : Machine where
  memory := 0x1000000000
  roomy := by decide
  digits := some 4300

@[reducible] def Machine.unlimited : Machine :=
  { Machine.usual with digits := none }

/-- The number of sizes that can be counted. -/
def indexBound : Nat := 0x8000000000000000

end Blum
