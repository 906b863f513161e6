import Blum.Key.Generate
import Blum.Text.Duration

/-! # Sessions of the command line

A session prints lines, works with a source and a log, and reads a clock. The clock is an
effect of the surrounding monad, so the same program runs against the time of day and against a
list of readings that is fixed beforehand. -/

namespace Blum.Command

structure Session where
  workspace : Workspace
  /-- What has been printed, piece by piece. -/
  printed : List String := []

/-- A program that runs in a session. What it has printed stays when it fails. -/
abbrev Script (m : Type → Type) (α : Type) := ExceptT Fault (StateT Session m) α

namespace Script

variable {m : Type → Type} [Monad m]

def ofLogged (work : Logged α) : Script m α := fun ⟨workspace, printed⟩ =>
  let (result, workspace) := work workspace
  pure (result, ⟨workspace, printed⟩)

instance : MonadLift Logged (Script m) := ⟨ofLogged⟩

def print (text : String) : Script m Unit :=
  modifyThe Session fun session => { session with printed := session.printed ++ [text] }

def say (line : String) : Script m Unit :=
  print (line ++ "\n")

def timed (now : m Float) (work : Script m α) : Script m (α × Float) := do
  let start ← (monadLift now : StateT Session m Float)
  let result ← work
  let stop ← (monadLift now : StateT Session m Float)
  return (result, stop - start)

end Script

/-- The readings that a clock has still to give. The last one is given again and again. -/
structure Clock where
  readings : List Float

/-- Reads the clock. A clock that never had a reading shows zero. -/
def Clock.read : StateM Clock Float := fun clock =>
  match clock.readings with
  | [] => (0, clock)
  | [t] => (t, clock)
  | t :: rest => (t, ⟨rest⟩)

end Blum.Command
