import Mathlib
import Blum.Proofs.Membership
import Blum.Proofs.Outcomes

/-!
# What engines can fail with

The faults of keys, engines and their generation, for any arguments. None of
them is about a handle, about the encoding of a number or about a round trip of
the benchmark: those are raised by the registry, at the byte boundary and by the
benchmark themselves, so whoever sees one knows where it comes from.
-/

namespace Blum

open Stateful

/-- A fault that an engine or the making of its key may raise. -/
def Fault.OfEngine : Fault → Prop
  | .unknownHandle _ | .negativeEncoding | .roundTrip => False
  | _ => True

def FailsAsEngine {α : Type} (r : Except Fault α) : Prop :=
  ∀ f, r = .error f → f.OfEngine

namespace FailsAsEngine

variable {α β : Type}

theorem ok (a : α) : FailsAsEngine (.ok a) := nofun

theorem error {f : Fault} (h : f.OfEngine) : FailsAsEngine (.error f : Except Fault α) := by
  rintro _ ⟨⟩
  exact h

theorem bind {r : Except Fault α} {k : α → Except Fault β} (hr : FailsAsEngine r)
    (hk : ∀ a, FailsAsEngine (k a)) : FailsAsEngine (r >>= k) := by
  cases r with
  | error f => exact error (hr f rfl)
  | ok a => exact hk a

theorem map {r : Except Fault α} (hr : FailsAsEngine r) (k : α → β) :
    FailsAsEngine (r.map k) := by
  cases r with
  | error f => exact error (hr f rfl)
  | ok a => exact ok _

theorem mapM {f : α → Except Fault β} (hf : ∀ a, FailsAsEngine (f a)) (as : List α) :
    FailsAsEngine (as.mapM f) := by
  induction as with
  | nil => exact ok _
  | cons a as ih =>
      rw [List.mapM_cons]
      exact (hf a).bind fun b => ih.bind fun bs => ok _

theorem ensures {σ : Type} {r : Except Fault α} (hr : FailsAsEngine r) :
    Ensures (liftM r : Stateful σ α) (fun a => r = .ok a) Fault.OfEngine :=
  ensures_lift hr

end FailsAsEngine

open FailsAsEngine

/-! ## Arguments and keys -/

theorem failsAsEngine_integer (a : Argument) (name : String) :
    FailsAsEngine (a.integer name) := by
  cases a with
  | int i => exact ok i
  | _ => exact error trivial

theorem failsAsEngine_count (a : Argument) : FailsAsEngine a.count := by
  unfold Argument.count
  split
  · exact ok _
  · exact error trivial

theorem failsAsEngine_publicKey (n r s : Argument) :
    FailsAsEngine (PublicKey.ofArguments n r s) := by
  refine (failsAsEngine_integer n _).bind fun n => (failsAsEngine_integer r _).bind fun r =>
    (failsAsEngine_integer s _).bind fun s => ?_
  unfold PublicKey.ofInts
  split
  · split
    · exact error trivial
    · exact error trivial
    · exact ok _
  · exact error trivial

theorem failsAsEngine_ofPublic (key : PublicKey) (p q u : Int) :
    FailsAsEngine (PrivateKey.ofPublic key p q u) := by
  unfold PrivateKey.ofPublic
  split_ifs
  · exact error trivial
  · exact ok _
  all_goals exact error trivial

theorem failsAsEngine_privateKey (n r s p q u : Argument) :
    FailsAsEngine (PrivateKey.ofArguments n r s p q u) := by
  refine (failsAsEngine_publicKey n r s).bind fun key => ?_
  refine (failsAsEngine_integer p _).bind fun p => (failsAsEngine_integer q _).bind fun q =>
    (failsAsEngine_integer u _).bind fun u => ?_
  exact failsAsEngine_ofPublic key p q u

theorem failsAsEngine_deriveCoefficient (p q : Int) :
    FailsAsEngine (PrivateKey.deriveCoefficient p q) := by
  unfold PrivateKey.deriveCoefficient
  split
  · exact error trivial
  · split
    · exact ok _
    · exact error trivial

theorem failsAsEngine_ofFactors (p q : Int) (r s : Selector) :
    FailsAsEngine (PrivateKey.ofFactors p q r.toInt s.toInt) := by
  refine (failsAsEngine_deriveCoefficient p q).bind fun u => ?_
  exact failsAsEngine_privateKey (.int (p * q)) (.int r.toInt) (.int s.toInt) (.int p)
    (.int q) (.int u)

/-! ## Operations of an engine -/

namespace Engine

theorem failsAsEngine_apply (e : Engine) (x : Int) : FailsAsEngine (e.apply x) := by
  rw [apply_eq]
  split_ifs
  · exact ok _
  · exact error trivial

theorem failsAsEngine_invert (e : Engine) (x : Int) : FailsAsEngine (e.invert x) := by
  rcases e with ⟨key | key⟩
  · exact error trivial
  · show FailsAsEngine (key.engine.invert x)
    rw [invert_eq]
    split_ifs
    · exact ok _
    · exact error trivial
    · exact error trivial

theorem failsAsEngine_accepts (e : Engine) (x : Int) : FailsAsEngine (e.accepts x) := by
  rcases e with ⟨key | key⟩
  · rcases check_pub_cases key x with h | h
    · rw [accepts_of_check_notValid h]
      exact ok _
    · rw [accepts_of_check_unknown h]
      exact error trivial
  · show FailsAsEngine (key.engine.accepts x)
    rcases admits_xor_refuses key x with ⟨h, -⟩ | ⟨h, -⟩
    · rw [h.accepts]
      exact ok _
    · rw [h.accepts]
      exact ok _

end Engine

/-! ## Key generation -/

namespace Generate

theorem failsAsEngine_rounds (rate : Argument) : FailsAsEngine (Prime.rounds rate) := by
  unfold Prime.rounds
  split
  · split_ifs
    · exact ok _
    · exact error trivial
    · exact ok _
    · exact error trivial
  · refine (failsAsEngine_count rate).bind fun i => ?_
    split_ifs
    · exact ok _
    · exact error trivial

theorem ensures_isPrime (n : Nat) (rate : Argument) :
    Ensures (Prime.isPrime n rate) (fun _ => True) Fault.OfEngine := by
  unfold Prime.isPrime
  split
  · exact ensures_pure trivial
  · split
    · exact ensures_pure trivial
    · refine (failsAsEngine_rounds rate).ensures.bind fun k _ => ?_
      exact (Prime.yields_runRounds _ _ _).ensures trivial

theorem ensures_candidate (bits : Nat) :
    Ensures (candidate bits) (fun _ => True) Fault.OfEngine := by
  unfold candidate Draw.exactInteger
  refine Ensures.bind (P := fun _ => True) ?_ fun _ _ => ensures_pure trivial
  exact ((Draw.yields_integer _).ensures trivial).bind fun _ _ => ensures_pure trivial

theorem ensures_search_ofEngine [Machine] (bits : Int) (settings : Settings) :
    Ensures (search bits settings) (fun _ => True) Fault.OfEngine := by
  have hstop {f : Fault} (hf : f.OfEngine) (rest : PUnit → Logged Nat) :
      Ensures (throw f >>= rest) (fun _ => True) Fault.OfEngine :=
    Ensures.bind (P := fun _ => False) (ensures_throw hf) fun _ h => h.elim
  unfold search
  by_cases h₁ : bits < 2
  · rw [if_pos h₁]
    exact hstop (f := .negativeShift) trivial _
  by_cases h₂ : maxShift < bits - 2
  · rw [if_neg h₁, if_pos h₂]
    exact hstop (f := .tooLarge) trivial _
  by_cases h₃ : Machine.memory < shiftSize (bits - 2)
  · rw [if_neg h₁, if_neg h₂, if_pos h₃]
    exact hstop (f := .outOfMemory) trivial _
  rw [if_neg h₁, if_neg h₂, if_neg h₃]
  refine (failsAsEngine_count _).ensures.bind fun attempts _ => ?_
  exact ensures_searchFrom_of_test (ensures_candidate _)
    (fun c _ => (ensures_isPrime c _).mono (fun _ _ _ => trivial) fun _ h => h) trivial _ _

theorem failsAsEngine_firstBits (settings : Settings) : FailsAsEngine settings.firstBits :=
  (failsAsEngine_count _).bind fun _ => ok _

theorem failsAsEngine_secondBits (settings : Settings) : FailsAsEngine settings.secondBits :=
  (failsAsEngine_count _).bind fun _ => (failsAsEngine_firstBits _).bind fun _ => ok _

theorem ensures_privateKey_ofEngine [Machine] (settings : Settings) :
    Ensures (privateKey settings) (fun _ => True) Fault.OfEngine := by
  unfold privateKey
  refine (failsAsEngine_firstBits settings).ensures.bind fun bits _ => ?_
  refine (ensures_search_ofEngine bits settings).bind fun p _ => ?_
  refine (failsAsEngine_count _).ensures.bind fun attempts _ => ?_
  refine (ensures_searchOther_of_search (failsAsEngine_secondBits settings).ensures
    (fun bits _ => ensures_search_ofEngine bits settings) trivial _).bind fun q _ => ?_
  refine (failsAsEngine_ofFactors p q .plus .plus).ensures.bind fun key _ => ?_
  exact (Logged.ensures_record _).bind fun _ _ => ensures_pure trivial

end Generate

namespace Settings

theorem failsAsEngine_requireAtLeast (bound : Nat) (a : Argument) (which : BadSetting) :
    FailsAsEngine (requireAtLeast bound a which) := by
  have hbelow : FailsAsEngine (a.isBelow bound) := by
    unfold Argument.isBelow
    split
    · exact ok _
    · exact (failsAsEngine_count a).map _
  refine hbelow.bind fun below => ?_
  split
  · exact error trivial
  · exact ok _

theorem failsAsEngine_check (settings : Settings) : FailsAsEngine settings.check := by
  have hrate : FailsAsEngine settings.errorRate.insideUnit := by
    unfold Argument.insideUnit
    split
    · exact ok _
    · exact (failsAsEngine_count _).map _
  refine (failsAsEngine_requireAtLeast _ _ _).bind fun _ =>
    (failsAsEngine_requireAtLeast _ _ _).bind fun _ =>
    (failsAsEngine_requireAtLeast _ _ _).bind fun _ => hrate.bind fun inside => ?_
  split
  · exact error trivial
  · exact ok _

end Settings

namespace Engine

/-- **Making an engine fails as engines do**, whatever the arguments are. -/
theorem failsAsEngine_ofRequest (request : KeyRequest) :
    FailsAsEngine (ofRequest request) := by
  have hkey : FailsAsEngine request.key := by
    cases request with
    | pub n r s => exact (failsAsEngine_publicKey n r s).map _
    | priv n r s p q u => exact (failsAsEngine_privateKey n r s p q u).map _
    | factors p q r s =>
        refine FailsAsEngine.map ?_ _
        refine (failsAsEngine_integer p _).bind fun p =>
          (failsAsEngine_integer q _).bind fun q =>
          (failsAsEngine_deriveCoefficient p q).bind fun u => ?_
        exact failsAsEngine_privateKey _ r s _ _ _
    | other value => exact error trivial
  exact hkey.bind fun _ => ok _

theorem ensures_generate [Machine] (settings : Settings) :
    Ensures (generate settings) (fun _ => True) Fault.OfEngine := by
  unfold generate
  refine settings.failsAsEngine_check.ensures.bind fun _ _ => ?_
  exact (Generate.ensures_privateKey_ofEngine settings).bind fun _ _ => ensures_pure trivial

end Engine

end Blum
