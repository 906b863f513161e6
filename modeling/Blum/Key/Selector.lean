/-! # Selectors

A square has one root of each residue character modulo a factor. A selector says which of the
two is meant. -/

namespace Blum

/-- The residue character of the root that is meant. -/
inductive Selector where
  /-- The root that is itself a square. -/
  | plus
  /-- The other root. -/
  | minus
  deriving DecidableEq, Repr

namespace Selector

def all : List Selector := [.plus, .minus]

def toInt : Selector → Int
  | .plus => 1
  | .minus => -1

def ofInt? (v : Int) : Option Selector :=
  all.find? fun s => s.toInt == v

/-- Negates a root modulo `p` if the selector asks for the other one. -/
def pick (s : Selector) (root p : Int) : Int :=
  match s with
  | .plus => root
  | .minus => p - root

end Selector

end Blum
