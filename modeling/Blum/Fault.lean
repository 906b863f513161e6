import Blum.Argument
import Blum.Limits

/-! # Faults

Everything that can stop an operation, one constructor for each cause. The text of a fault is
a function of its cause (`Fault.message`), and so is its kind (`Fault.kind`). Kinds form a
small hierarchy, which a caller uses to handle several causes at once: `Kind.within k c` says
that a handler for `c` also handles `k`.

The text is written before a fault is raised. Where a limit on digits keeps one of its numbers
from being written, `DigitLimit.raised` raises that instead. -/

namespace Blum

inductive Mismatch where
  | modulus
  | firstSelector (value : Int)
  | secondSelector (value : Int)
  | product
  | equalFactors
  | residueClass
  | coefficient
  | noInverse
  deriving DecidableEq, Repr

def Mismatch.message : Mismatch → String
  | .modulus => "Modulus n must be odd and greater than 1"
  | .firstSelector v => s!"Selector r must be 1 or -1, got {v}"
  | .secondSelector v => s!"Selector s must be 1 or -1, got {v}"
  | .product => "p * q does not equal the modulus n"
  | .equalFactors => "p and q must be distinct"
  | .residueClass => "p and q must both be 3 mod 4"
  | .coefficient => "u is not the inverse of p modulo q"
  | .noInverse => "p has no inverse modulo q"

def Mismatch.numbers : Mismatch → List Int
  | .firstSelector v | .secondSelector v => [v]
  | _ => []

inductive BadSetting where
  | bits
  | primeAttempts
  | pairAttempts
  | errorRate
  deriving DecidableEq, Repr

def BadSetting.message : BadSetting → String
  | .bits => "bit_length must be at least 16"
  | .primeAttempts => "max_prime_attempts must be at least 1"
  | .pairAttempts => "max_pair_attempts must be at least 1"
  | .errorRate => "false_positive_prob must be in (0, 1)"

/-- A cause that stops an operation. -/
inductive Fault where
  | mismatch (why : Mismatch)
  | notBelow (value modulus : Int)
  | notBetween (value modulus : Int)
  | nonResidue (value : Int)  -- an operand in range has no root of the chosen kind
  | factorsRequired
  | undecided
  | searchExhausted (bits : Int) (attempts : Argument)  -- no candidate was prime
  | pairExhausted  -- every draw of the second prime gave the first one again
  | unknownHandle (id : Int)
  | notInteger (name typeName : String)
  | notKey
  | badSetting (which : BadSetting)
  | negativeEncoding
  | zeroModulus  -- a power is taken modulo zero
  | notInvertible  -- a number has no inverse for the modulus
  | symbolModulus  -- a Jacobi symbol is taken for a modulus that is even or not positive
  | negativeShift  -- a shift is by a negative distance
  | noLogarithm  -- a number has no logarithm
  | divisionByZero
  | tooLarge  -- a number is too large for the type it is turned into
  | operandType  -- an operation is applied to a value of a type it does not know
  | noEncoding  -- a number of a type that has no byte encoding is to be encoded
  | inexactOperand  -- a double stands where only an exact number will do
  | undefinedOperand  -- an operation is not defined for values of this type
  | notByte  -- a number stands for no byte
  | badTemplate  -- a template breaks off or asks for an unknown conversion
  | digitLimit  -- a number has more digits than may be written
  | outOfMemory  -- a value would not fit into memory
  | roundTrip  -- a round trip through the inverse map did not return the elements it began with
  | sourceExhausted  -- the byte source has no more bytes to give
  deriving DecidableEq

/-- What a handler can ask for. -/
inductive Kind where
  | library  -- any fault that this library defines
  | keyMismatch
  | invalidInput
  | missingPrivateKey
  | keyGeneration
  | unknownHandle
  | value  -- a value of the right type that is not acceptable
  | runtime  -- an operation that the present state does not permit, or that gave up
  | key  -- a key that is not in a table
  | lookup  -- a position or key that does not exist
  | type
  | zeroDivision
  | overflow
  | memory
  | attribute  -- a part of a value that values of its type do not have
  | notDefined  -- an operation that is not defined for the values at hand
  | assertion
  | exhausted
  deriving DecidableEq, Repr

namespace Kind

def parents : Kind → List Kind
  | .keyMismatch | .invalidInput => [.library, .value]
  | .missingPrivateKey | .keyGeneration => [.library, .runtime]
  | .unknownHandle => [.library, .key]
  | .key => [.lookup]
  | .notDefined => [.runtime]
  | _ => []

/-- The kinds that include a kind: itself, its parents, and their parents. -/
def ancestors (k : Kind) : List Kind :=
  k :: k.parents ++ k.parents.flatMap parents

/-- A handler for `c` also handles `k`. -/
def within (k c : Kind) : Bool :=
  k.ancestors.contains c

end Kind

namespace Fault

def kind : Fault → Kind
  | .mismatch _ => .keyMismatch
  | .notBelow .. | .notBetween .. | .nonResidue _ => .invalidInput
  | .factorsRequired | .undecided => .missingPrivateKey
  | .searchExhausted .. | .pairExhausted => .keyGeneration
  | .unknownHandle _ => .unknownHandle
  | .notInteger .. | .notKey | .operandType => .type
  | .badSetting _ | .negativeEncoding | .zeroModulus | .notInvertible | .symbolModulus
  | .negativeShift | .noLogarithm | .inexactOperand | .notByte
  | .badTemplate | .digitLimit => .value
  | .divisionByZero => .zeroDivision
  | .tooLarge => .overflow
  | .noEncoding => .attribute
  | .undefinedOperand => .notDefined
  | .outOfMemory => .memory
  | .roundTrip => .assertion
  | .sourceExhausted => .exhausted

/-- The text of a fault. Faults of plain arithmetic carry none. A table key that is missing is
quoted, so the text about an unknown handle stands in quotes. -/
def message : Fault → Option String
  | .mismatch why => some why.message
  | .notBelow x n => some s!"Input {x} out of range [0, {n})"
  | .notBetween y n => some s!"Input {y} out of range (0, {n})"
  | .nonResidue y => some s!"Input {y} is not a quadratic residue modulo n"
  | .factorsRequired => some "Operation requires the private key (p, q)"
  | .undecided => some "Quadratic residuosity modulo n cannot be decided without p and q"
  | .searchExhausted bits attempts =>
    some s!"No {bits}-bit prime found in {attempts.shown} candidates"
  | .pairExhausted => some "Could not draw two distinct primes"
  | .unknownHandle id => some s!"'Handle {id} is not registered'"
  | .notInteger name typeName => some s!"{name} must be an int, got {typeName}"
  | .notKey => some "key must be a RabinPublicKey or RabinPrivateKey"
  | .badSetting which => some which.message
  | .negativeEncoding => some "Cannot encode a negative integer"
  | _ => none

/-- The integers that the text of a fault cites. -/
def numbers : Fault → List Int
  | .mismatch why => why.numbers
  | .notBelow x n | .notBetween x n => [x, n]
  | .nonResidue y => [y]
  | .searchExhausted bits attempts => bits :: attempts.numbers
  | .unknownHandle id => [id]
  | _ => []

/-- What is raised for a fault: the fault itself, if its text can be written. -/
def raised (limit : DigitLimit) (f : Fault) : Fault :=
  if ∀ i ∈ f.numbers, limit.Admits i then f else .digitLimit

end Fault

namespace DigitLimit

/-- A result as a caller meets it. -/
def raised (limit : DigitLimit) (result : Except Fault α) : Except Fault α :=
  result.mapError (Fault.raised limit)

def write (limit : DigitLimit) (numbers : List Int) (text : String) : Except Fault String :=
  if ∀ i ∈ numbers, limit.Admits i then .ok text else .error .digitLimit

end DigitLimit

namespace Argument

/-- The integer behind an argument. Truth values are refused with everything else. -/
def integer (name : String) : Argument → Except Fault Int
  | .int i => .ok i
  | a => .error (.notInteger name a.typeName)

def count (a : Argument) : Except Fault Int :=
  match a.count? with
  | some i => .ok i
  | none => .error .operandType

/-- Whether a number is below a small bound. Values that are no numbers have no order. -/
def isBelow (a : Argument) (bound : Nat) : Except Fault Bool :=
  match a with
  | .float x => .ok (x < Float.ofNat bound)
  | a => a.count.map (· < (bound : Int))

def insideUnit : Argument → Except Fault Bool
  | .float x => .ok (0 < x && x < 1)
  | a => a.count.map fun _ => false

end Argument

end Blum
