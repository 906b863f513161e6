import Blum.Argument

/-! # Log records

What the library reports while it works. A record says what happened, and its level and its
text follow from that. No record has room for a secret: the only numbers in it are sizes,
counts, bounds and handles. -/

namespace Blum

inductive Level where
  | debug
  | info
  | warning
  deriving DecidableEq, Repr

def Level.word : Level → String
  | .debug => "DEBUG"
  | .info => "INFO"
  | .warning => "WARNING"

/-- One reported event. -/
inductive LogRecord where
  | primeFound (bits candidates : Nat)
  | searchExhausted (attempts : Argument) (bits : Nat)
  | pairExhausted (attempts : Argument)
  | keyGenerated (bits : Nat)
  | registered (id : Nat)
  | released (id : Nat)
  deriving DecidableEq

namespace LogRecord

def level : LogRecord → Level
  | .primeFound .. | .registered _ | .released _ => .debug
  | .keyGenerated _ => .info
  | .searchExhausted .. | .pairExhausted _ => .warning

def text : LogRecord → String
  | .primeFound bits k => s!"Found {bits}-bit prime after {k} candidates"
  | .searchExhausted attempts bits =>
    s!"Prime search exhausted {attempts.shown} candidates at {bits} bits"
  | .pairExhausted attempts => s!"Could not draw q != p in {attempts.shown} attempts"
  | .keyGenerated bits => s!"Generated Rabin key pair with {bits}-bit modulus"
  | .registered id => s!"Registered engine under handle {id}"
  | .released id => s!"Released handle {id}"

end LogRecord

end Blum
