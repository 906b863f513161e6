import Blum.Fault
import Blum.Limits
import Blum.Text.NumberSize

/-! # Templates

A template is text, or a byte string, with places for values, as in `"%5.2f seconds"`. A place
opens with `%`, may name a key, flags, a width and a precision, and closes with the letter of a
conversion. Two `%` in a row stand for one.

A template may be repeated many times and a place may be very wide, so the filled template is
measured and not written: `size` is the length that it has when one value fills it, or the
fault that keeps the value from doing so. The template is read character by character by
`step`. -/

namespace Blum.Text.Template

inductive Medium where
  | text
  | bytes
  deriving DecidableEq, Repr

inductive Stage where
  | outside
  /-- After the `%` of a place. -/
  | opened
  /-- Inside a key, within this many brackets besides its own. -/
  | key (depth : Nat)
  | flags
  | width
  | widthDone
  | point
  | precision
  /-- After a precision that is given as a value. -/
  | precisionDone
  | letter
  deriving DecidableEq, Repr

structure Place extends NumberStyle where
  /-- The least number of characters. -/
  width : Nat := 0
  deriving DecidableEq, Repr

structure Filling where
  stage : Stage := .outside
  /-- The place at hand. -/
  place : Place := {}
  used : Bool := false
  /-- The size of what has been filled. -/
  size : Nat := 0
  deriving DecidableEq, Repr

/-- A value with parts, which places may ask for by key. It need not be used as a whole. -/
def hasParts (medium : Medium) : Argument → Bool
  | .list _ => true
  | .bytes _ => medium = .text
  | _ => false

def maxWidth : Nat := 0x7fffffffffffffff

def maxPrecision : Nat := 0x7fffffff

def maxIntegerPrecision : Nat := maxPrecision - 3

def digit (bound value : Nat) (c : Char) : Except Fault Nat :=
  let longer := value * 10 + (c.toNat - '0'.toNat)
  if bound < longer then .error .badTemplate else .ok longer

/-- The integer that a value is written as in base 10. A double loses its fraction. -/
def integerOf : Argument → Except Fault Int
  | .float x =>
    if x.isNaN then .error .badTemplate
    else if x.isInf then .error .tooLarge
    else
      let whole : Int := wholePart x
      .ok (if x < 0 then -whole else whole)
  | a => a.count

def doubleOf (medium : Medium) : Argument → Except Fault Float
  | .float x => .ok x
  | a => do
    let x := Float.ofInt (← a.count)
    if x.isInf then throw (if medium = .text then .tooLarge else .operandType)
    return x

def requireCharacter (medium : Medium) (value : Argument) : Except Fault Unit :=
  match medium, value with
  | .text, .text t => if t.length = 1 then .ok () else .error .operandType
  | .bytes, .bytes data => if data.length = 1 then .ok () else .error .operandType
  | medium, value => do
    let i ← value.count
    let bound := if medium = .text then 0x110000 else 0x100
    if i < 0 ∨ bound ≤ i then throw .tooLarge

namespace Place

/-- The size of a text of which a place takes as much as its precision says. -/
def cut (p : Place) (size : Nat) : Nat :=
  match p.precision with
  | some n => min n size
  | none => size

def integerSize (p : Place) (base : Nat) (i : Int) : Except Fault Nat :=
  if maxIntegerPrecision < p.precision.getD 0 then .error .tooLarge
  else .ok (p.toNumberStyle.integerSize base i)

/-- The size of a double with an exponent. One digit stands before the point, and if the others
are as many as can be counted there is no place for them. -/
def scientificSize (p : Place) (x : Float) : Nat :=
  let places := p.precision.map fun n => if n = maxPrecision then 0 else n
  NumberStyle.doubleSize { p.toNumberStyle with precision := places }
    NumberStyle.scientificSize x

/-- The size of a value with the conversion of a letter, before it is filled up to the width. -/
def bodySize (p : Place) (medium : Medium) (value : Argument) (c : Char) : Except Fault Nat :=
  match c with
  | 's' =>
    match medium, value with
    | .text, value => .ok (p.cut value.shown.length)
    | .bytes, .bytes data => .ok (p.cut data.length)
    | .bytes, _ => .error .operandType
  | 'b' =>
    match medium, value with
    | .text, _ => .error .badTemplate
    | .bytes, .bytes data => .ok (p.cut data.length)
    | .bytes, _ => .error .operandType
  | 'r' =>
    let plain := if medium = .text then isPrintable else isPrintableAscii
    .ok (p.cut (value.cited plain).length)
  | 'a' => .ok (p.cut (value.cited isPrintableAscii).length)
  | 'd' | 'i' | 'u' => do p.integerSize 10 (← integerOf value)
  | 'o' => do p.integerSize 8 (← value.count)
  | 'x' | 'X' => do p.integerSize 16 (← value.count)
  | 'e' | 'E' => do return p.scientificSize (← doubleOf medium value)
  | 'f' | 'F' => do return p.doubleSize NumberStyle.fixedSize (← doubleOf medium value)
  | 'g' | 'G' => do return p.doubleSize NumberStyle.generalSize (← doubleOf medium value)
  | 'c' => do
    requireCharacter medium value
    return 1
  | _ => .error .badTemplate

end Place

section Reading

variable (medium : Medium) (value : Argument)

def take (f : Filling) : Except Fault Filling :=
  if f.used then .error .operandType else .ok { f with used := true }

/-- A place asks for the value as its width or precision. Nothing is left to fill it then, so
the size is not kept. -/
def takeSize (f : Filling) (bound : Nat) (next : Stage) : Except Fault Filling := do
  let f ← take f
  let size ← value.count
  if size < -(bound + 1 : Int) ∨ bound < size then throw .tooLarge
  return { f with stage := next }

variable [Machine]

def close (f : Filling) (c : Char) : Except Fault Filling := do
  let f ← take f
  let size := max f.place.width (← f.place.bodySize medium value c)
  if Machine.memory < f.size + size then throw .outOfMemory
  return { f with stage := .outside, size := f.size + size }

/-- The character after the precision. A mark of size says nothing. -/
def afterPrecision (f : Filling) (c : Char) : Except Fault Filling :=
  if c = 'h' ∨ c = 'l' ∨ c = 'L' then .ok { f with stage := .letter }
  else close medium value f c

def afterWidth (f : Filling) (c : Char) : Except Fault Filling :=
  if c = '.' then .ok { f with stage := .point, place.precision := some 0 }
  else afterPrecision medium value f c

def widthDigit (f : Filling) (c : Char) : Except Fault Filling := do
  return { f with stage := .width, place.width := ← digit maxWidth f.place.width c }

def precisionDigit (f : Filling) (c : Char) : Except Fault Filling := do
  let n ← digit maxPrecision (f.place.precision.getD 0) c
  return { f with stage := .precision, place.precision := some n }

def afterFlags (f : Filling) (c : Char) : Except Fault Filling :=
  if c = '-' ∨ c = '0' then .ok { f with stage := .flags }
  else if c = '+' ∨ c = ' ' then .ok { f with stage := .flags, place.signed := true }
  else if c = '#' then .ok { f with stage := .flags, place.alternate := true }
  else if c = '*' then takeSize value f maxWidth .widthDone
  else if c.isDigit then widthDigit f c
  else afterWidth medium value f c

/-- A place opens. No value has a part under any key. -/
def opening (f : Filling) (c : Char) : Except Fault Filling :=
  if c = '%' then .ok { f with stage := .outside, size := f.size + 1 }
  else if c = '(' then
    if hasParts medium value then .ok { f with stage := .key 0 } else .error .operandType
  else afterFlags medium value { f with place := {} } c

def step (f : Filling) (c : Char) : Except Fault Filling :=
  match f.stage with
  | .outside =>
    .ok (if c = '%' then { f with stage := .opened } else { f with size := f.size + 1 })
  | .opened => opening medium value f c
  | .key depth =>
    if c = '(' then .ok { f with stage := .key (depth + 1) }
    else if c = ')' then
      match depth with
      | 0 => .error .operandType
      | depth + 1 => .ok { f with stage := .key depth }
    else .ok f
  | .flags => afterFlags medium value f c
  | .width => if c.isDigit then widthDigit f c else afterWidth medium value f c
  | .widthDone => afterWidth medium value f c
  | .point =>
    if c = '*' then takeSize value f maxPrecision .precisionDone
    else if c.isDigit then precisionDigit f c
    else afterPrecision medium value f c
  | .precision => if c.isDigit then precisionDigit f c else afterPrecision medium value f c
  | .precisionDone => afterPrecision medium value f c
  | .letter => close medium value f c

def steps (template : List Char) : (copies : Nat) → Filling → Except Fault Filling
  | 0, f => .ok f
  | copies + 1, f => do steps template copies (← template.foldlM (step medium value) f)

end Reading

/-- The size of the copies of a template, one after the other, when a value fills them. Every
place has to be closed, and the value has to be used. -/
def size [Machine] (medium : Medium) (template : List Char) (copies : Nat) (value : Argument) :
    Except Fault Nat := do
  let f ←
    if template.contains '%' then steps medium value template copies {}
    else pure { size := template.length * copies }
  if f.stage ≠ .outside then throw .badTemplate
  if !f.used && !hasParts medium value then throw .operandType
  return f.size

end Blum.Text.Template
