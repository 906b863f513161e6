import Blum.Command.Session
import Blum.Proofs.Outcomes

/-!
# Running sessions

What a script comes to when it is run in a session, with any clock: `Reaches d s Q`
says that the result of `d` and the session that it leaves satisfy `Q`, whatever the
clock shows. There is one rule for each thing that a script can do. A script that
only prints is known by its lines.
-/

namespace Blum.Command

open Script

def Session.after (s : Session) (w : Workspace) (lines : List String) : Session :=
  ⟨w, s.printed ++ lines.map (· ++ "\n")⟩

theorem Session.after_nil (s : Session) : s.after s.workspace [] = s := by
  simp [after]

theorem Session.after_after (s : Session) (w w' : Workspace) (lines more : List String) :
    (s.after w lines).after w' more = s.after w' (lines ++ more) := by
  simp [after]

section Rules

variable {γ α β : Type} {now : StateM γ Float} {s : Session}

/-- Whatever the clock shows, `d` reaches an end with the property `Q`. -/
def Reaches (d : Script (StateM γ) α) (s : Session)
    (Q : Except Fault α × Session → Prop) : Prop :=
  ∀ c, Q (d s c).1

/-- What has to hold where `f` takes over for it to reach `Q`. -/
def Continues (f : α → Script (StateM γ) β) (Q : Except Fault β × Session → Prop) :
    Except Fault α × Session → Prop
  | (.ok a, s) => Reaches (f a) s Q
  | (.error e, s) => Q (.error e, s)

theorem Reaches.mono {d : Script (StateM γ) α} {P Q : Except Fault α × Session → Prop}
    (h : Reaches d s P) (hPQ : ∀ out, P out → Q out) : Reaches d s Q :=
  fun c => hPQ _ (h c)

theorem Reaches.bind {d : Script (StateM γ) α} {f : α → Script (StateM γ) β}
    {Q : Except Fault β × Session → Prop} (h : Reaches d s (Continues f Q)) :
    Reaches (d >>= f) s Q := by
  intro c
  have hd := h c
  simp only [Bind.bind, ExceptT.bind, ExceptT.mk, StateT.bind]
  generalize d s c = out at hd ⊢
  obtain ⟨⟨r, s'⟩, c'⟩ := out
  cases r with
  | ok a => exact hd c'
  | error e => exact hd

theorem reaches_pure {a : α} {Q : Except Fault α × Session → Prop} (h : Q (.ok a, s)) :
    Reaches (pure a : Script (StateM γ) α) s Q :=
  fun _ => h

theorem reaches_lift {r : Except Fault α} {Q : Except Fault α × Session → Prop}
    (h : Q (r, s)) : Reaches (liftM r : Script (StateM γ) α) s Q := by
  intro c
  cases r with
  | ok a => exact h
  | error e => exact h

theorem reaches_logged {work : Logged α} {Q : Except Fault α × Session → Prop}
    (h : Q ((work s.workspace).1, { s with workspace := (work s.workspace).2 })) :
    Reaches (liftM work : Script (StateM γ) α) s Q :=
  fun _ => h

theorem reaches_logged_of_eq {work : Logged α} {Q : Except Fault α × Session → Prop}
    {r : Except Fault α} {w w' : Workspace} {lines : List String} (hwork : work w = (r, w'))
    (h : Q (r, s.after w' lines)) :
    Reaches (liftM work : Script (StateM γ) α) (s.after w lines) Q := by
  refine reaches_logged ?_
  show Q ((work w).1, s.after (work w).2 lines)
  rw [hwork]
  exact h

theorem reaches_tick {Q : Except Fault Float × Session → Prop} (h : ∀ time, Q (.ok time, s)) :
    Reaches (liftM (monadLift now : StateT Session (StateM γ) Float) : Script (StateM γ) Float)
      s Q :=
  fun _ => h _

theorem reaches_timed {work : Script (StateM γ) α} {Q : Except Fault (α × Float) × Session → Prop}
    (h : Reaches work s fun out => ∀ time, Q (out.1.map (·, time), out.2)) :
    Reaches (timed now work) s Q := by
  refine Reaches.bind (reaches_tick fun start => Reaches.bind (h.mono ?_))
  rintro ⟨a | e, s'⟩ hout
  · exact hout 0
  · exact Reaches.bind (reaches_tick fun stop => reaches_pure (hout _))

/-- A script that prints some lines and does nothing else. -/
def Says (d : Script (StateM γ) Unit) (lines : List String) : Prop :=
  ∀ s Q, Q (.ok (), s.after s.workspace lines) → Reaches d s Q

theorem says_say (line : String) : Says (say line : Script (StateM γ) Unit) [line] :=
  fun _ _ h _ => h

theorem Says.reaches {d : Script (StateM γ) Unit} {w : Workspace} {lines more : List String}
    {Q : Except Fault Unit × Session → Prop} (hd : Says d more)
    (h : Q (.ok (), s.after w (lines ++ more))) : Reaches d (s.after w lines) Q := by
  refine hd _ _ ?_
  rwa [Session.after_after]

theorem Says.bind {d : Script (StateM γ) Unit} {w : Workspace} {lines more : List String}
    {f : Unit → Script (StateM γ) β} {Q : Except Fault β × Session → Prop}
    (hd : Says d more) (h : Reaches (f ()) (s.after w (lines ++ more)) Q) :
    Reaches (d >>= f) (s.after w lines) Q :=
  Reaches.bind (hd.reaches h)

theorem Says.append {d d' : Script (StateM γ) Unit} {lines lines' : List String}
    (hd : Says d lines) (hd' : Says d' lines') : Says (d >>= fun _ => d') (lines ++ lines') :=
  fun s _ h => Reaches.bind (hd s _ (hd'.reaches h))

/-! ## What any session ensures -/

/-- Whatever `d` returns satisfies `P` and whatever it fails with satisfies `F`, in any
session. -/
def Secures (d : Script (StateM γ) α) (P : α → Prop) (F : Fault → Prop) : Prop :=
  ∀ s, Reaches d s fun out =>
    match out.1 with
    | .ok a => P a
    | .error f => F f

variable {P : α → Prop} {Q : β → Prop} {F : Fault → Prop}

theorem Secures.bind {d : Script (StateM γ) α} {f : α → Script (StateM γ) β}
    (hd : Secures d P F) (hf : ∀ a, P a → Secures (f a) Q F) : Secures (d >>= f) Q F := by
  intro s
  refine Reaches.bind ((hd s).mono ?_)
  rintro ⟨a | e, s'⟩ h
  · exact h
  · exact hf _ h s'

theorem secures_lift {r : Except Fault α} (h : ∀ f, r = .error f → F f) :
    Secures (liftM r : Script (StateM γ) α) (fun a => r = .ok a) F := by
  intro s
  refine reaches_lift ?_
  cases r with
  | ok a => rfl
  | error f => exact h f rfl

theorem secures_logged {work : Logged α} (h : Stateful.Ensures work P F) :
    Secures (liftM work : Script (StateM γ) α) P F :=
  fun s => reaches_logged (h s.workspace)

theorem Secures.timed {work : Script (StateM γ) α} (h : Secures work P F) :
    Secures (timed now work) (fun out => P out.1) F := by
  intro s
  refine reaches_timed ((h s).mono ?_)
  rintro ⟨a | e, s'⟩ hout time
  · exact hout
  · exact hout

theorem Says.secures {d : Script (StateM γ) Unit} {lines : List String} (h : Says d lines) :
    Secures d (fun _ => True) F :=
  fun s => h s _ trivial

end Rules

end Blum.Command
