import Mathlib
import Blum.Key.Generate
import Blum.Proofs.Draws

/-!
# Budgets

A source ends where its budget does, so a stream that never ends is the limit of
its sources with larger and larger budgets. A computation that is not stopped by
its source does the same with any larger budget: this is `Persists`, which
composes along sequences. On a stream that never ends a computation therefore
has one result from some budget on, or it goes through every budget.
-/

namespace Blum

/-- `t` has the stream and the position of `s`, and a budget as large at least. -/
structure Source.Extends (t s : Source) : Prop where
  byteAt : t.byteAt = s.byteAt
  bytesUsed : t.bytesUsed = s.bytesUsed
  callsUsed : t.callsUsed = s.callsUsed
  byteLimit : s.byteLimit ≤ t.byteLimit
  callLimit : s.callLimit ≤ t.callLimit

namespace Stateful

variable {σ α β : Type} {R : σ → σ → Prop}

/-- From related states `d` does the same, unless its source stops it at the first. -/
def Persists (R : σ → σ → Prop) (d : Stateful σ α) : Prop :=
  ∀ s t, R t s → (d s).1 = .error .sourceExhausted ∨
    (d t).1 = (d s).1 ∧ R (d t).2 (d s).2

theorem persists_pure (a : α) : Persists R (pure a : Stateful σ α) :=
  fun _ _ h => Or.inr ⟨rfl, h⟩

theorem persists_throw (f : Fault) : Persists R (throw f : Stateful σ α) :=
  fun _ _ h => Or.inr ⟨rfl, h⟩

theorem persists_lift (r : Except Fault α) : Persists R (liftM r : Stateful σ α) := by
  intro s t h
  rw [lift_apply, lift_apply]
  exact Or.inr ⟨rfl, h⟩

theorem Persists.bind {d : Stateful σ α} {f : α → Stateful σ β} (hd : Persists R d)
    (hf : ∀ a, Persists R (f a)) : Persists R (d >>= f) := by
  intro s t h
  rw [bind_apply, bind_apply]
  rcases hs : d s with ⟨r, s'⟩
  rcases ht : d t with ⟨r', t'⟩
  have hstep := hd s t h
  rw [hs, ht] at hstep
  rcases hstep with hstop | ⟨hr, hR⟩
  · obtain rfl : r = .error .sourceExhausted := hstop
    exact Or.inl rfl
  · obtain rfl : r' = r := hr
    cases r' with
    | error e => exact Or.inr ⟨rfl, hR⟩
    | ok a => exact hf a s' t' hR

theorem Persists.guarded {d : Stateful σ α} (h : Persists R d) (c : Prop) [Decidable c]
    (f : Fault) : Persists R (if c then throw f >>= fun _ : PUnit => d else d) := by
  split
  · exact (persists_throw f).bind fun _ => h
  · exact h

end Stateful

open Stateful

namespace Draw

theorem persists_bytes (n : Nat) : Persists Source.Extends (bytes n) := by
  intro s t h
  by_cases hs : s.Refuses n
  · exact Or.inl (by rw [bytes, if_pos hs])
  · have ht : ¬ t.Refuses n := by
      have := h.byteLimit
      have := h.callLimit
      simp only [Source.Refuses, h.bytesUsed, h.callsUsed] at hs ⊢
      omega
    rw [bytes, bytes, if_neg hs, if_neg ht]
    refine Or.inr ⟨?_, h.byteAt, ?_, ?_, h.byteLimit, h.callLimit⟩
    · simp only [Source.next, h.byteAt, h.bytesUsed]
    · simp only [h.bytesUsed]
    · simp only [h.callsUsed]

/-- The induction is on the calls that the smaller budget leaves. -/
theorem persists_untilSome {α : Type} {attempt : Draw (Option α)} {hc : attempt.Consumes}
    (h : Persists Source.Extends attempt) :
    Persists Source.Extends (untilSome attempt hc) := by
  intro s t hst
  induction hk : s.callsLeft using Nat.strong_induction_on generalizing s t with
  | h k ih =>
      rw [untilSome_eq, untilSome_eq]
      rcases hs : attempt s with ⟨r, s'⟩
      rcases ht : attempt t with ⟨r', t'⟩
      have hstep := h s t hst
      rw [hs, ht] at hstep
      rcases hstep with hstop | ⟨hr, hR⟩
      · obtain rfl : r = .error .sourceExhausted := hstop
        exact Or.inl rfl
      · obtain rfl : r' = r := hr
        rcases r' with e | _ | a
        · exact Or.inr ⟨rfl, hR⟩
        · exact ih _ (hk ▸ hc s none s' hs) s' t' hR rfl
        · exact Or.inr ⟨rfl, hR⟩

theorem persists_integer (width : Nat) : Persists Source.Extends (integer width) := by
  refine (persists_bytes _).bind fun low => ?_
  split
  · exact persists_pure _
  · exact (persists_bytes 1).bind fun top => persists_pure _

theorem persists_choose (low span : Nat) (accept : Nat → Bool) :
    Persists Source.Extends (choose low span accept) :=
  persists_untilSome ((persists_integer _).bind fun _ => persists_pure _)

end Draw

namespace Prime

theorem persists_runRounds (n k : Nat) (used : List Nat) :
    Persists Source.Extends (runRounds n k used) := by
  induction k generalizing used with
  | zero => exact persists_pure true
  | succ k ih =>
      refine (Draw.persists_choose _ _ _).bind fun a => ?_
      split
      · exact ih _
      · exact persists_pure false

theorem persists_isPrime (n : Nat) (rate : Argument) :
    Persists Source.Extends (isPrime n rate) := by
  rw [isPrime]
  split
  · exact persists_pure _
  · split
    · exact persists_pure _
    · exact (persists_lift _).bind fun k => persists_runRounds _ _ _

end Prime

def Workspace.Extends (v w : Workspace) : Prop :=
  v.source.Extends w.source ∧ v.log = w.log

namespace Logged

theorem persists_ofDraw {α : Type} {d : Draw α} (h : Persists Source.Extends d) :
    Persists Workspace.Extends (liftM d : Logged α) := by
  rintro w v ⟨hsource, hlog⟩
  exact (h w.source v.source hsource).imp id fun ⟨hr, hR⟩ => ⟨hr, hR, hlog⟩

theorem persists_record (event : LogRecord) :
    Persists Workspace.Extends (Logged.record event) :=
  fun _ _ h => Or.inr ⟨rfl, h.1, congrArg (Array.push · event) h.2⟩

end Logged

namespace Generate

open Logged

theorem persists_candidate (bits : Nat) : Persists Source.Extends (candidate bits) :=
  ((Draw.persists_integer _).bind fun _ => persists_pure _).bind fun _ => persists_pure _

theorem persists_searchFrom (bits : Nat) (settings : Settings) (left k : Nat) :
    Persists Workspace.Extends (searchFrom bits settings left k) := by
  induction left generalizing k with
  | zero => exact (persists_record _).bind fun _ => persists_throw _
  | succ left ih =>
      refine (persists_ofDraw (persists_candidate bits)).bind fun c => ?_
      refine (persists_ofDraw (Prime.persists_isPrime _ _)).bind fun answer => ?_
      split
      · exact (persists_record _).bind fun _ => persists_pure c
      · exact ih _

variable [Machine]

theorem persists_search (bits : Int) (settings : Settings) :
    Persists Workspace.Extends (search bits settings) := by
  refine .guarded (.guarded (.guarded ?_ _ _) _ _) _ _
  exact (persists_lift _).bind fun attempts => persists_searchFrom _ _ _ _

theorem persists_searchOther (p : Nat) (settings : Settings) (left : Nat) :
    Persists Workspace.Extends (searchOther p settings left) := by
  induction left with
  | zero => exact (persists_record _).bind fun _ => persists_throw _
  | succ left ih =>
      refine (persists_lift _).bind fun bits => ?_
      refine (persists_search bits settings).bind fun q => ?_
      split
      · exact ih
      · exact persists_pure q

theorem persists_privateKey (settings : Settings) :
    Persists Workspace.Extends (privateKey settings) := by
  refine (persists_lift _).bind fun bits => ?_
  refine (persists_search bits settings).bind fun p => ?_
  refine (persists_lift _).bind fun attempts => ?_
  refine (persists_searchOther p settings _).bind fun q => ?_
  refine (persists_lift _).bind fun key => ?_
  exact (persists_record _).bind fun _ => persists_pure key

end Generate

/-! ## Streams that never end -/

def Source.withBudget (s : Source) (n : Nat) : Source :=
  { s with byteLimit := n, callLimit := n }

def Workspace.withBudget (w : Workspace) (n : Nat) : Workspace :=
  { w with source := w.source.withBudget n }

theorem Workspace.withBudget_extends (w : Workspace) {n m : Nat} (h : n ≤ m) :
    (w.withBudget m).Extends (w.withBudget n) :=
  ⟨⟨rfl, rfl, rfl, h, h⟩, rfl⟩

namespace Logged

variable {α : Type} {d : Logged α} {w : Workspace}

/-- The result is `r` from some budget on, and it is not the source that stops `d`. -/
def Returns (d : Logged α) (w : Workspace) (r : Except Fault α) : Prop :=
  r ≠ .error .sourceExhausted ∧ ∃ n, ∀ m, n ≤ m → (d (w.withBudget m)).1 = r

/-- Whatever the budget is, `d` asks for more. -/
def NeverReturns (d : Logged α) (w : Workspace) : Prop :=
  ∀ n, (d (w.withBudget n)).1 = .error .sourceExhausted

theorem returns_or_neverReturns (h : Persists Workspace.Extends d) (w : Workspace) :
    (∃ r, Returns d w r) ∨ NeverReturns d w := by
  by_cases hnever : NeverReturns d w
  · exact Or.inr hnever
  · obtain ⟨n, hn⟩ := not_forall.mp hnever
    refine Or.inl ⟨(d (w.withBudget n)).1, hn, n, fun m hm => ?_⟩
    have hstep := h _ _ (w.withBudget_extends hm)
    exact (hstep.resolve_left hn).1

end Logged

end Blum
