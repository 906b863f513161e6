import Blum.Text.Printable

/-! # Quoted text

Text and bytes between quotes on one line, as messages cite them. Apostrophes serve as quotes
unless the text holds some and holds no double quotes. What cannot stand for itself is
escaped. -/

namespace Blum.Text

def hexDigits (width n : Nat) : List Char :=
  let digits := Nat.toDigits 16 n
  List.replicate (width - digits.length) '0' ++ digits

def apostrophe : Char := Char.ofNat 39

/-- The quote to put around some characters: an apostrophe, unless there are apostrophes among
them and no double quotes. -/
def quoteFor (cs : List Char) : Char :=
  if cs.contains apostrophe && !cs.contains '"' then '"' else apostrophe

/-- A character between quotes of the given kind. It stands for itself if `plain` says so and
it is neither the quote nor a backslash. -/
def escape (plain : Char → Bool) (quote c : Char) : List Char :=
  if c = quote ∨ c = '\\' then ['\\', c]
  else if c = '\n' then ['\\', 'n']
  else if c = '\r' then ['\\', 'r']
  else if c = '\t' then ['\\', 't']
  else if plain c then [c]
  else if c.toNat < 0x100 then '\\' :: 'x' :: hexDigits 2 c.toNat
  else if c.toNat < 0x10000 then '\\' :: 'u' :: hexDigits 4 c.toNat
  else '\\' :: 'U' :: hexDigits 8 c.toNat

def enclosed (plain : Char → Bool) (cs : List Char) : List Char :=
  let quote := quoteFor cs
  quote :: cs.flatMap (escape plain quote) ++ [quote]

def quoted (text : String) : String :=
  String.ofList (enclosed isPrintable text.toList)

def isPrintableAscii (c : Char) : Bool :=
  0x20 ≤ c.toNat && c.toNat < 0x7f

def charsOfBytes (data : List UInt8) : List Char :=
  data.map fun b => Char.ofNat b.toNat

/-- Bytes between quotes, after the mark `b`. Only bytes that are printable ASCII characters
stand for themselves. -/
def quotedBytes (data : List UInt8) : String :=
  String.ofList ('b' :: enclosed isPrintableAscii (charsOfBytes data))

end Blum.Text
