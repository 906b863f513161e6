import Blum.Argument
import Blum.Text.Integer
import Blum.Text.Quoted

/-! # Options of the command line

Which arguments the program understands. Reading goes in two passes. The first sorts each
argument by its shape alone: options may be shortened to any prefix that no other option
shares, and everything after a bare separator is plain. The second takes the sorted arguments
from left to right, gives values to the options that need one, and collects what it cannot use.
A later value replaces an earlier one. -/

namespace Blum.Command

inductive Switch where
  | rabin
  | benchmark
  | verbose
  deriving DecidableEq, Repr

inductive Setting where
  | bits
  | ops
  deriving DecidableEq, Repr

inductive OptionName where
  | help
  | switch (name : Switch)
  | setting (name : Setting)
  deriving DecidableEq, Repr

namespace OptionName

def all : List OptionName :=
  [.help, .switch .rabin, .switch .benchmark, .setting .bits, .setting .ops, .switch .verbose]

def spelling : OptionName → String
  | .help => "--help"
  | .switch .rabin => "--rabin"
  | .switch .benchmark => "--benchmark"
  | .setting .bits => "--bits"
  | .setting .ops => "--ops"
  | .switch .verbose => "--verbose"

def title : OptionName → String
  | .help => "-h/--help"
  | name => name.spelling

end OptionName

inductive Token where
  /-- An argument that is no option: a value, or something that nobody asked for. -/
  | plain (text : String)
  /-- A known option and the value that is attached to it. -/
  | option (name : OptionName) (value : Option String)
  /-- The short help option with the characters that are attached to it, directly or by an
  equals sign. -/
  | letters (attached : String)
  | unknown (text : String)
  | separator
  deriving DecidableEq, Repr

inductive Misuse where
  | ambiguous (text : String) (candidates : List OptionName)
  | valueMissing (name : OptionName)
  | valueIgnored (name : OptionName) (value : String)
  | notInteger (name : OptionName) (value : String)
  | unrecognized (extras : List String)
  deriving DecidableEq, Repr

def Misuse.message : Misuse → String
  | .ambiguous text candidates =>
    s!"ambiguous option: {text} could match "
      ++ ", ".intercalate (candidates.map OptionName.spelling)
  | .valueMissing name => s!"argument {name.title}: expected one argument"
  | .valueIgnored name value =>
    s!"argument {name.title}: ignored explicit argument {Text.quoted value}"
  | .notInteger name value =>
    s!"argument {name.title}: invalid int value: {Text.quoted value}"
  | .unrecognized extras => "unrecognized arguments: " ++ " ".intercalate extras

def defaultBits : Int := 1024

def defaultOps : Int := 100

structure Options where
  rabin : Bool := false
  benchmark : Bool := false
  bits : Argument := .int defaultBits
  ops : Argument := .int defaultOps
  verbose : Bool := false
  deriving DecidableEq

inductive Stop where
  | help
  | misuse (why : Misuse)

/-- The characters before the first equals sign, and those after it if there is one. -/
def splitAssignment (cs : List Char) : List Char × Option (List Char) :=
  match cs.dropWhile (· != '=') with
  | [] => (cs, none)
  | _ :: value => (cs.takeWhile (· != '='), some value)

/-- The options that a stem may stand for: the one it spells out, or else all that it starts. -/
def candidates (stem : List Char) : List OptionName :=
  match OptionName.all.find? fun name => name.spelling.toList == stem with
  | some name => [name]
  | none => OptionName.all.filter fun name => stem.isPrefixOf name.spelling.toList

def allDigits (cs : List Char) : Bool :=
  cs.all fun c => (Text.digitValue? c).isSome

/-- Whether the characters after a hyphen make it a negative number: digits, or digits around a
point of which those after it are not empty. A line end may follow. -/
def looksNumeric (cs : List Char) : Bool :=
  let body := if cs.getLast? = some '\n' then cs.dropLast else cs
  let whole := body.takeWhile (· != '.')
  match body.dropWhile (· != '.') with
  | [] => !whole.isEmpty && allDigits whole
  | _ :: fraction => allDigits whole && !fraction.isEmpty && allDigits fraction

def leftover (text : String) : Token :=
  let cs := text.toList
  if looksNumeric (cs.drop 1) || cs.contains ' ' then .plain text else .unknown text

def classify (text : String) : Except Misuse Token :=
  match text.toList with
  | '-' :: '-' :: rest =>
    let (stem, value) := splitAssignment ('-' :: '-' :: rest)
    match candidates stem with
    | [] => .ok (leftover text)
    | [name] => .ok (.option name (value.map String.ofList))
    | names => .error (.ambiguous text names)
  | ['-', 'h'] => .ok (.option .help none)
  | '-' :: 'h' :: '=' :: rest => .ok (.letters (String.ofList rest))
  | '-' :: 'h' :: rest => .ok (.letters (String.ofList rest))
  | '-' :: _ :: _ => .ok (leftover text)
  | _ => .ok (.plain text)

def classifyAll : List String → Except Misuse (List Token)
  | [] => .ok []
  | text :: rest =>
    if text = "--" then .ok (.separator :: rest.map .plain)
    else do
      let token ← classify text
      let tokens ← classifyAll rest
      return token :: tokens

/-- What the characters attached to the short help option ask for. They are short options
themselves, of which help is the only one, and help takes no value. -/
def letterStop (attached : List Char) : Stop :=
  match attached.dropWhile (· == 'h') with
  | [] => if attached.isEmpty then .misuse (.valueIgnored .help "") else .help
  | value => .misuse (.valueIgnored .help (String.ofList value))

def Options.turnOn (options : Options) : Switch → Options
  | .rabin => { options with rabin := true }
  | .benchmark => { options with benchmark := true }
  | .verbose => { options with verbose := true }

def Options.put (options : Options) (value : Argument) : Setting → Options
  | .bits => { options with bits := value }
  | .ops => { options with ops := value }

/-- Reads the value of a setting. A separator does not count as a value, even where it is
attached to the option, and leaves the setting with the list of no values. -/
def readSetting [Machine] (name : Setting) (value : String) : Except Stop Argument :=
  if value = "--" then .ok (.list [])
  else
    match Text.readInt? Machine.digits value with
    | some i => .ok (.int i)
    | none => .error (.misuse (.notInteger (.setting name) value))

/-- Takes the sorted arguments in turn. Help and misuse end the reading where they stand, and
what nobody asked for is refused at the end. -/
def consume [Machine] (options : Options) (extras : List String) : List Token → Except Stop Options
  | [] =>
    if extras.isEmpty then .ok options else .error (.misuse (.unrecognized extras))
  | .plain text :: rest => consume options (extras ++ [text]) rest
  | .unknown text :: rest => consume options (extras ++ [text]) rest
  | .separator :: rest => consume options (extras ++ ["--"]) rest
  | .letters text :: _ => .error (letterStop text.toList)
  | .option .help none :: _ => .error .help
  | .option (.switch name) none :: rest => consume (options.turnOn name) extras rest
  | .option (.setting name) none :: .plain text :: rest => do
    let value ← readSetting name text
    consume (options.put value name) extras rest
  | .option (.setting name) none :: _ => .error (.misuse (.valueMissing (.setting name)))
  | .option (.setting name) (some text) :: rest => do
    let value ← readSetting name text
    consume (options.put value name) extras rest
  | .option name (some value) :: _ => .error (.misuse (.valueIgnored name value))

def parse [Machine] (args : List String) : Except Stop Options :=
  match classifyAll args with
  | .error why => .error (.misuse why)
  | .ok tokens => consume {} [] tokens

end Blum.Command
