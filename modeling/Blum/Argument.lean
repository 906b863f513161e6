import Blum.Text.Quoted
import Blum.Text.Shortest

/-! # Arguments

The values that a caller may hand to an operation before anything is known about them.
Every operation over integers receives an `Argument` and turns anything else away, so the
type has to be able to say what it was that came instead. -/

namespace Blum

/-- A value as a caller supplies it. -/
inductive Argument where
  | int (value : Int)
  /-- A truth value. It is not an integer, though it counts as 0 or 1. -/
  | bool (value : Bool)
  | nothing
  /-- A double. -/
  | float (value : Float)
  | text (value : String)
  | bytes (value : List UInt8)
  | list (items : List Argument)
  /-- A table of values under names. -/
  | table (entries : List (String × Argument))

namespace Argument

mutual

def decEq : (a b : Argument) → Decidable (a = b)
  | .int a, b => by
    cases b with
    | int b => exact decidable_of_iff (a = b) (by simp)
    | _ => exact isFalse nofun
  | .bool a, b => by
    cases b with
    | bool b => exact decidable_of_iff (a = b) (by simp)
    | _ => exact isFalse nofun
  | .nothing, b => by
    cases b with
    | nothing => exact isTrue rfl
    | _ => exact isFalse nofun
  | .float a, b => by
    cases b with
    | float b => exact decidable_of_iff (a = b) (by simp)
    | _ => exact isFalse nofun
  | .text a, b => by
    cases b with
    | text b => exact decidable_of_iff (a = b) (by simp)
    | _ => exact isFalse nofun
  | .bytes a, b => by
    cases b with
    | bytes b => exact decidable_of_iff (a = b) (by simp)
    | _ => exact isFalse nofun
  | .list a, b => by
    cases b with
    | list b => exact @decidable_of_iff _ (a = b) (by simp) (decEqItems a b)
    | _ => exact isFalse nofun
  | .table a, b => by
    cases b with
    | table b => exact @decidable_of_iff _ (a = b) (by simp) (decEqEntries a b)
    | _ => exact isFalse nofun

def decEqItems : (as bs : List Argument) → Decidable (as = bs)
  | [], [] => isTrue rfl
  | [], _ :: _ | _ :: _, [] => isFalse nofun
  | a :: as, b :: bs =>
    match decEq a b, decEqItems as bs with
    | isTrue ha, isTrue has => isTrue (by rw [ha, has])
    | isFalse ha, _ => isFalse (by simp [ha])
    | _, isFalse has => isFalse (by simp [has])

def decEqEntries : (as bs : List (String × Argument)) → Decidable (as = bs)
  | [], [] => isTrue rfl
  | [], _ :: _ | _ :: _, [] => isFalse nofun
  | (k, a) :: as, (l, b) :: bs =>
    match decEq a b, decEqEntries as bs with
    | isTrue ha, isTrue has =>
      if hk : k = l then isTrue (by rw [hk, ha, has]) else isFalse (by simp [hk])
    | isFalse ha, _ => isFalse (by simp [ha])
    | _, isFalse has => isFalse (by simp [has])

end

instance : DecidableEq Argument := decEq

instance : Inhabited Argument := ⟨.nothing⟩

def typeName : Argument → String
  | .int _ => "int"
  | .bool _ => "bool"
  | .nothing => "NoneType"
  | .float _ => "float"
  | .text _ => "str"
  | .bytes _ => "bytes"
  | .list _ => "list"
  | .table _ => "dict"

/-- The number that a value counts for: an integer counts for itself and a truth value for
0 or 1. -/
def count? : Argument → Option Int
  | .int i => some i
  | .bool b => some (if b then 1 else 0)
  | _ => none

def truthWord (b : Bool) : String :=
  if b then "True" else "False"

mutual

/-- A value as it is cited: text and bytes between quotes, lists and tables in brackets.
Characters that are not `plain` are escaped. -/
def cited (plain : Char → Bool) : Argument → List Char
  | .int i => (toString i).toList
  | .bool b => (truthWord b).toList
  | .nothing => "None".toList
  | .float x => (Text.shortest x).toList
  | .text t => Text.enclosed plain t.toList
  | .bytes data => (Text.quotedBytes data).toList
  | .list items => '[' :: citedItems plain items ++ [']']
  | .table entries => '\x7b' :: citedEntries plain entries ++ ['\x7d']

def citedItems (plain : Char → Bool) : List Argument → List Char
  | [] => []
  | [a] => cited plain a
  | a :: rest => cited plain a ++ ',' :: ' ' :: citedItems plain rest

def citedEntries (plain : Char → Bool) : List (String × Argument) → List Char
  | [] => []
  | [(name, a)] => Text.enclosed plain name.toList ++ ':' :: ' ' :: cited plain a
  | (name, a) :: rest =>
    Text.enclosed plain name.toList ++ ':' :: ' ' :: cited plain a
      ++ ',' :: ' ' :: citedEntries plain rest

end

mutual

def numbers : Argument → List Int
  | .int i => [i]
  | .list items => numbersOfItems items
  | .table entries => numbersOfEntries entries
  | _ => []

def numbersOfItems : List Argument → List Int
  | [] => []
  | a :: rest => numbers a ++ numbersOfItems rest

def numbersOfEntries : List (String × Argument) → List Int
  | [] => []
  | (_, a) :: rest => numbers a ++ numbersOfEntries rest

end

/-- A value as it is written in messages: text as it is, and the rest as it is cited. -/
def shown : Argument → String
  | .text t => t
  | a => String.ofList (a.cited Text.isPrintable)

end Argument

end Blum
