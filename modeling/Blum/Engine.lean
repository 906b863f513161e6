import Blum.Arith.Recombine
import Blum.Arith.Symbol
import Blum.Key.Basic
import Blum.Key.Generate

/-! # The engine

Squaring modulo `n` and its inverse. Squaring needs the modulus alone. Inversion needs the
factors: it takes a root modulo each of them, picks the one that the selectors name, and
recombines the two. The domain of inversion is the set of squares of units modulo `n`; an
engine without the factors can refute membership by a Jacobi symbol but never confirm it. -/

namespace Blum

/-- What is known about membership in the domain of inversion. -/
inductive Validity where
  | valid
  | notValid
  /-- The factors would decide it. -/
  | unknown
  deriving DecidableEq, Repr

namespace Validity

def all : List Validity := [.valid, .notValid, .unknown]

def word : Validity → String
  | .valid => "valid"
  | .notValid => "not_valid"
  | .unknown => "dont_know"

end Validity

structure Engine where
  key : Key
  deriving DecidableEq

namespace Engine

def algorithm : String := "Rabin"

def publicKey (e : Engine) : PublicKey := e.key.publicPart

def modulus (e : Engine) : Int := e.publicKey.n

def privateKey (e : Engine) : Except Fault PrivateKey :=
  match e.key.private? with
  | some key => .ok key
  | none => .error .factorsRequired

def hasPrivateKey (e : Engine) : Bool := e.key.private?.isSome

def publicOnly (e : Engine) : Engine := ⟨.pub e.publicKey⟩

/-- The forward map: the square modulo `n` of anything in `[0, n)`. -/
def apply (e : Engine) (x : Int) : Except Fault Int :=
  if 0 ≤ x ∧ x < e.modulus then power x 2 e.modulus
  else .error (.notBelow x e.modulus)

/-- The root of `y` that the selectors of the key name, if `y` is the square of a unit modulo
`n`. -/
def selectedRoot (key : PrivateKey) (y : Int) : Except Fault (Option Int) := do
  let yp ← remainder y key.p
  let yq ← remainder y key.q
  if yp = 0 ∨ yq = 0 then return none
  if (← eulerSymbol yp key.p) ≠ 1 then return none
  if (← eulerSymbol yq key.q) ≠ 1 then return none
  let rootP ← blumRoot yp key.p
  let rootQ ← blumRoot yq key.q
  let x ← recombine (key.r.pick rootP key.p) (key.s.pick rootQ key.q) key.p key.q key.u
  return some x

/-- The inverse map: the selected root of a square of a unit. -/
def invert (e : Engine) (y : Int) : Except Fault Int := do
  let key ← e.privateKey
  if ¬ (0 < y ∧ y < key.n) then throw (.notBetween y key.n)
  match ← selectedRoot key y with
  | some x => return x
  | none => throw (.nonResidue y)

def check (e : Engine) (x : Int) : Except Fault Validity :=
  if ¬ (0 < x ∧ x < e.modulus) then .ok .notValid
  else
    match e.key with
    | .pub key => do
      if (← jacobiSymbol x key.n) ≠ 1 then return .notValid
      return .unknown
    | .priv key => do
      if (← selectedRoot key x).isNone then return .notValid
      return .valid

/-- Whether `x` can be inverted. Where the engine cannot tell, this is an error. -/
def accepts (e : Engine) (x : Int) : Except Fault Bool := do
  match ← e.check x with
  | .valid => return true
  | .notValid => return false
  | .unknown => throw .undecided

def applyThenInvert (e : Engine) (x : Int) : Except Fault Int := do
  e.invert (← e.apply x)

def invertThenApply (e : Engine) (y : Int) : Except Fault Int := do
  e.apply (← e.invert y)

/-- A random square of a unit: units are found by rejection and then squared. -/
def randomElement (e : Engine) : Draw Int := do
  let n := e.modulus.toNat
  let z ← Draw.choose 1 (n - 2) fun z => z.gcd n = 1
  power z 2 e.modulus

def shown (e : Engine) : String :=
  let key := e.publicKey
  let factors := if e.hasPrivateKey then "True" else "False"
  s!"RabinPermutation(n_bits={bitLength key.n.toNat}, r={key.r.toInt}, s={key.s.toInt}, "
    ++ s!"private={factors})"

def ofRequest (request : KeyRequest) : Except Fault Engine := do
  return ⟨← request.key⟩

def generate [Machine] (settings : Settings) : Logged Engine := do
  settings.check
  return ⟨.priv (← Generate.privateKey settings)⟩

end Engine

inductive Operation where
  | apply
  | invert
  | check
  | accepts
  | applyThenInvert
  | invertThenApply
  deriving DecidableEq, Repr

inductive Reply where
  | number (value : Int)
  | validity (value : Validity)
  | truth (value : Bool)
  deriving DecidableEq, Repr

namespace Operation

def operandName : Operation → String
  | .invert | .invertThenApply => "y"
  | _ => "x"

def run (e : Engine) (x : Int) : Operation → Except Fault Reply
  | .apply => .number <$> e.apply x
  | .invert => .number <$> e.invert x
  | .check => .validity <$> e.check x
  | .accepts => .truth <$> e.accepts x
  | .applyThenInvert => .number <$> e.applyThenInvert x
  | .invertThenApply => .number <$> e.invertThenApply x

/-- Runs an operation on an operand of unknown type. Whatever the engine knows, an operand that
is no integer is refused first. -/
def call (e : Engine) (operand : Argument) (op : Operation) : Except Fault Reply := do
  let x ← operand.integer op.operandName
  op.run e x

end Operation

end Blum
