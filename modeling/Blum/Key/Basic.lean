import Blum.Key.Private

/-! # Keys

A key is public or private. Two keys are equal if they are of one sort and agree in every
part; a private key never equals the public key of its own modulus. -/

namespace Blum

inductive Key where
  | pub (key : PublicKey)
  | priv (key : PrivateKey)
  deriving DecidableEq

namespace Key

def publicPart : Key → PublicKey
  | .pub key => key
  | .priv key => key.toPublicKey

def private? : Key → Option PrivateKey
  | .pub _ => none
  | .priv key => some key

def shownParts (key : PublicKey) : String :=
  s!"(n={key.n}, r={key.r.toInt}, s={key.s.toInt})"

def name : Key → String
  | .pub _ => "RabinPublicKey"
  | .priv _ => "RabinPrivateKey"

/-- How a key is shown. The factors stay hidden. -/
def shown (limit : DigitLimit) (key : Key) : Except Fault String :=
  limit.write [key.publicPart.n] (key.name ++ shownParts key.publicPart)

end Key

/-- The parts from which a caller asks for a key. -/
inductive KeyRequest where
  | pub (n r s : Argument)
  | priv (n r s p q u : Argument)
  | factors (p q : Argument) (r s : Argument := .int 1)
  /-- Something that is no key at all. -/
  | other (value : Argument)

def KeyRequest.key : KeyRequest → Except Fault Key
  | .pub n r s => .pub <$> PublicKey.ofArguments n r s
  | .priv n r s p q u => .priv <$> PrivateKey.ofArguments n r s p q u
  | .factors p q r s => .priv <$> PrivateKey.ofFactorArguments p q r s
  | .other _ => .error .notKey

end Blum
