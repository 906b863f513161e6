import Mathlib
import Blum.Key.Generate
import Blum.Proofs.Draws

/-!
# Outcomes

`Ensures d P F` says that whatever the computation `d` returns satisfies `P`
and whatever it fails with satisfies `F`, from any state. It composes along
sequences, and what is known of a draw holds of it within a logged computation
as well.
-/

namespace Blum

namespace Stateful

variable {σ α β : Type} {P : α → Prop} {Q : β → Prop} {F : Fault → Prop}

def Ensures (d : Stateful σ α) (P : α → Prop) (F : Fault → Prop) : Prop :=
  ∀ s, match (d s).1 with
    | .ok a => P a
    | .error f => F f

theorem ensures_pure {a : α} (h : P a) : Ensures (pure a : Stateful σ α) P F :=
  fun _ => h

theorem ensures_throw {f : Fault} (h : F f) : Ensures (throw f : Stateful σ α) P F :=
  fun _ => h

theorem Ensures.bind {d : Stateful σ α} {f : α → Stateful σ β} (hd : Ensures d P F)
    (hf : ∀ a, P a → Ensures (f a) Q F) : Ensures (d >>= f) Q F := by
  intro s
  rw [bind_apply]
  have h := hd s
  rcases hs : d s with ⟨f | a, s'⟩ <;> rw [hs] at h
  · exact h
  · exact hf a h s'

theorem Ensures.mono {d : Stateful σ α} {Q : α → Prop} {G : Fault → Prop}
    (hd : Ensures d P F) (hPQ : ∀ a, P a → Q a) (hFG : ∀ f, F f → G f) :
    Ensures d Q G := by
  intro s
  have h := hd s
  rcases hs : d s with ⟨f | a, s'⟩ <;> rw [hs] at h
  · exact hFG f h
  · exact hPQ a h

theorem ensures_lift {r : Except Fault α} (h : ∀ f, r = .error f → F f) :
    Ensures (liftM r : Stateful σ α) (fun a => r = .ok a) F := by
  intro s
  rw [lift_apply]
  cases r with
  | error f => exact h f rfl
  | ok a => rfl

theorem Ensures.of_ok {d : Stateful σ α} (hd : Ensures d P F) {s s' : σ} {a : α}
    (h : d s = (.ok a, s')) : P a := by
  have := hd s
  rwa [h] at this

theorem Ensures.of_error {d : Stateful σ α} (hd : Ensures d P F) {s s' : σ} {f : Fault}
    (h : d s = (.error f, s')) : F f := by
  have := hd s
  rwa [h] at this

theorem ok_of_bind {d : Stateful σ α} {f : α → Stateful σ β} {s : σ} {b : β}
    (h : ((d >>= f) s).1 = .ok b) : ∃ a s', d s = (.ok a, s') ∧ (f a s').1 = .ok b := by
  rw [bind_apply] at h
  rcases hd : d s with ⟨e | a, s'⟩ <;> rw [hd] at h
  · cases h
  · exact ⟨a, s', rfl, h⟩

end Stateful

/-- If a function succeeds on each member of a list then it does on the whole list. -/
theorem mapM_eq_ok_map {α β : Type} {f : α → Except Fault β} {g : α → β} {as : List α}
    (h : ∀ a ∈ as, f a = .ok (g a)) : as.mapM f = .ok (as.map g) := by
  induction as with
  | nil => rfl
  | cons a as ih =>
      obtain ⟨ha, has⟩ := List.forall_mem_cons.mp h
      rw [List.mapM_cons, ha, ih has]
      rfl

open Stateful

theorem Draw.Yields.ensures {α : Type} {d : Draw α} {P : α → Prop} {F : Fault → Prop}
    (h : d.Yields P) (hF : F .sourceExhausted) : Ensures d P F := by
  intro s
  rcases h s with ⟨a, s', hs, -, ha⟩ | ⟨s', hs, -⟩
  · rw [hs]
    exact ha
  · rw [hs]
    exact hF

namespace Logged

theorem ensures_ofDraw {α : Type} {d : Draw α} {P : α → Prop} {F : Fault → Prop}
    (h : Ensures d P F) : Ensures (liftM d : Logged α) P F :=
  fun w => h w.source

theorem ensures_record (event : LogRecord) {F : Fault → Prop} :
    Ensures (Logged.record event) (fun _ => True) F :=
  fun _ => trivial

end Logged

/-! ## Searches

What one candidate ensures, the bounded loops of key generation ensure as well.
Both inductions are on the attempts that are left. -/

namespace Generate

variable {settings : Settings} {P : Nat → Prop} {F : Fault → Prop}

theorem ensures_searchFrom_of_test {bits : Nat} {C : Nat → Prop}
    (hdraw : Ensures (candidate bits) C F)
    (htest : ∀ c, C c →
      Ensures (Prime.isPrime c settings.errorRate) (fun answer => answer = true → P c) F)
    (hF : F (.searchExhausted bits settings.primeAttempts)) (left k : Nat) :
    Ensures (searchFrom bits settings left k) P F := by
  induction left generalizing k with
  | zero =>
      rw [searchFrom]
      exact (Logged.ensures_record _).bind fun _ _ => ensures_throw hF
  | succ left ih =>
      rw [searchFrom]
      refine (Logged.ensures_ofDraw hdraw).bind fun c hc => ?_
      refine (Logged.ensures_ofDraw (htest c hc)).bind fun answer hanswer => ?_
      split
      · rename_i htrue
        exact (Logged.ensures_record _).bind fun _ _ => ensures_pure (hanswer htrue)
      · exact ih _

theorem ensures_searchOther_of_search [Machine] {size : Int → Prop} {p : Nat}
    (hsize : Ensures (liftM settings.secondBits : Logged Int) size F)
    (hsearch : ∀ bits, size bits → Ensures (search bits settings) P F)
    (hF : F .pairExhausted) (left : Nat) :
    Ensures (searchOther p settings left) (fun q => P q ∧ q ≠ p) F := by
  induction left with
  | zero =>
      rw [searchOther]
      exact (Logged.ensures_record _).bind fun _ _ => ensures_throw hF
  | succ left ih =>
      rw [searchOther]
      refine hsize.bind fun bits hbits => (hsearch bits hbits).bind fun q hq => ?_
      split
      · exact ih
      · rename_i hne
        exact ensures_pure ⟨hq, hne⟩

end Generate

end Blum
