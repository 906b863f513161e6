import Blum.Limits

/-! # Integers in text

Reading an integer the way a person may write it: blanks around it, a sign, and underscores
between digits are allowed, and decimal digits of any script count. How many of them there may be
is limited, zeros in front included. Writing is in base 16. -/

namespace Blum.Text

/-- The digits 0 of all scripts that write numbers with ten digits in a row. -/
def zeroDigits : List Nat :=
  [0x30, 0x660, 0x6f0, 0x7c0, 0x966, 0x9e6, 0xa66, 0xae6, 0xb66, 0xbe6, 0xc66, 0xce6, 0xd66,
    0xde6, 0xe50, 0xed0, 0xf20, 0x1040, 0x1090, 0x17e0, 0x1810, 0x1946, 0x19d0, 0x1a80, 0x1a90,
    0x1b50, 0x1bb0, 0x1c40, 0x1c50, 0xa620, 0xa8d0, 0xa900, 0xa9d0, 0xa9f0, 0xaa50, 0xabf0,
    0xff10, 0x104a0, 0x10d30, 0x11066, 0x110f0, 0x11136, 0x111d0, 0x112f0, 0x11450, 0x114d0,
    0x11650, 0x116c0, 0x11730, 0x118e0, 0x11950, 0x11c50, 0x11d50, 0x11da0, 0x16a60, 0x16ac0,
    0x16b50, 0x1d7ce, 0x1d7d8, 0x1d7e2, 0x1d7ec, 0x1d7f6, 0x1e140, 0x1e2f0, 0x1e950, 0x1fbf0]

def digitValue? (c : Char) : Option Nat :=
  (zeroDigits.find? fun z => z ≤ c.toNat ∧ c.toNat < z + 10).map (c.toNat - ·)

def isBlank (c : Char) : Bool :=
  let n := c.toNat
  9 ≤ n && n ≤ 13 || n == 32 || n == 0x85 || n == 0xa0 || n == 0x1680
    || 0x2000 ≤ n && n ≤ 0x200a || n == 0x2028 || n == 0x2029 || n == 0x202f || n == 0x205f
    || n == 0x3000

/-- Reads the digits that follow a digit. An underscore needs a digit after it. -/
def readDigits? (value : Nat) : List Char → Option Nat
  | [] => some value
  | [c] => (digitValue? c).map (value * 10 + ·)
  | c :: d :: rest =>
    if c = '_' then
      match digitValue? d with
      | some v => readDigits? (value * 10 + v) rest
      | none => none
    else
      match digitValue? c with
      | some v => readDigits? (value * 10 + v) (d :: rest)
      | none => none

def readNat? : List Char → Option Nat
  | [] => none
  | c :: rest =>
    match digitValue? c with
    | some v => readDigits? v rest
    | none => none

def readInt? (limit : DigitLimit) (text : String) : Option Int := do
  let body := (text.toList.dropWhile isBlank).reverse.dropWhile isBlank |>.reverse
  guard (∀ d ∈ limit, body.countP (fun c => (digitValue? c).isSome) ≤ d)
  match body with
  | '+' :: rest => (readNat? rest).map Int.ofNat
  | '-' :: rest => (readNat? rest).map fun n => -(n : Int)
  | rest => (readNat? rest).map Int.ofNat

def hex (n : Nat) : String :=
  "0x" ++ String.ofList (Nat.toDigits 16 n)

end Blum.Text
