import Mathlib
import Blum.Proofs.Budgets
import Blum.Proofs.Generation
import Blum.Proofs.TrialDivision

/-!
# A stream without a base

A stream that has ones only answers every draw with the largest number of its
width. The candidate of 61 bits is then a prime, and no base for a round is ever
found, because the draw stays above the range of bases. Key generation for 122
bits thus goes through every budget.
-/

namespace Blum

open Stateful

namespace Draw

variable {α β : Type} {P : α → Prop} {Q : β → Prop}

/-- On a stream of ones, `d` yields values with property `P` if its source does not
stop it. -/
def OnOnes (d : Draw α) (P : α → Prop) : Prop :=
  ∀ s, (∀ i, s.byteAt i = 255) → (d s).1 = .error .sourceExhausted ∨
    (∀ i, (d s).2.byteAt i = 255) ∧ ∃ a, (d s).1 = .ok a ∧ P a

theorem onOnes_pure {a : α} (h : P a) : OnOnes (pure a) P :=
  fun _ hs => Or.inr ⟨hs, a, rfl, h⟩

theorem OnOnes.bind {d : Draw α} {f : α → Draw β} (hd : OnOnes d P)
    (hf : ∀ a, P a → OnOnes (f a) Q) : OnOnes (d >>= f) Q := by
  intro s hs
  rw [bind_apply]
  have hstep := hd s hs
  rcases hd : d s with ⟨r, s'⟩
  rw [hd] at hstep
  rcases hstep with hstop | ⟨hs', a, ha, hP⟩
  · obtain rfl : r = .error .sourceExhausted := hstop
    exact Or.inl rfl
  · obtain rfl : r = .ok a := ha
    exact hf a hP s' hs'

theorem onOnes_bytes (n : Nat) : OnOnes (bytes n) (· = List.replicate n 255) := by
  intro s hs
  by_cases h : s.Refuses n
  · exact Or.inl (by rw [bytes, if_pos h])
  · rw [bytes, if_neg h]
    refine Or.inr ⟨hs, s.next n, rfl, ?_⟩
    simp [Source.next, hs, List.map_const']

theorem onOnes_integer (width : Nat) : OnOnes (integer width) (· = assemble width
    (List.replicate (width / 8) 255) (if width % 8 = 0 then [] else [255])) := by
  refine (onOnes_bytes _).bind ?_
  rintro _ rfl
  split
  · exact onOnes_pure rfl
  · refine (onOnes_bytes 1).bind ?_
    rintro _ rfl
    exact onOnes_pure rfl

/-- The induction is on the calls that are left. -/
theorem onOnes_untilSome {attempt : Draw (Option α)} {hc : attempt.Consumes}
    (h : OnOnes attempt (· = none)) : OnOnes (untilSome attempt hc) fun _ => False := by
  intro s hs
  induction hk : s.callsLeft using Nat.strong_induction_on generalizing s with
  | h k ih =>
      rw [untilSome_eq]
      have hstep := h s hs
      rcases ht : attempt s with ⟨r, s'⟩
      rw [ht] at hstep
      rcases hstep with hstop | ⟨hs', _, hr, rfl⟩
      · obtain rfl : r = .error .sourceExhausted := hstop
        exact Or.inl rfl
      · obtain rfl : r = .ok none := hr
        exact ih _ (hk ▸ hc s none s' ht) s' hs' rfl

end Draw

namespace Prime

open Draw

/-- No base is found for the prime below `2 ^ 61`. -/
theorem onOnes_isPrime {rate : Argument} {r : Nat} (hrate : rounds rate = .ok (r + 1)) :
    OnOnes (isPrime 0x1FFFFFFFFFFFFFFF rate) fun _ => False := by
  have hprime : (mersenne 61).Prime := lucas_lehmer_sufficiency _ (by norm_num) (by norm_num)
  have htable : trialDivision 0x1FFFFFFFFFFFFFFF table = none :=
    trialDivision_table_of_prime hprime (by decide)
  have hlift : OnOnes (liftM (rounds rate) : Draw Nat) (· = r + 1) := by
    intro s hs
    rw [lift_apply, hrate]
    exact Or.inr ⟨hs, r + 1, rfl, rfl⟩
  rw [isPrime, if_neg (by decide), htable]
  refine hlift.bind ?_
  rintro _ rfl
  rw [show min (r + 1) (0x1FFFFFFFFFFFFFFF - 2) = min r 0x1FFFFFFFFFFFFFFC + 1 by omega,
    runRounds]
  refine (onOnes_untilSome ?_).bind fun _ h => h.elim
  refine (onOnes_integer _).bind ?_
  rintro _ rfl
  exact onOnes_pure (by decide)

end Prime

namespace Generate

open Draw

theorem onOnes_candidate : OnOnes (candidate 61) (· = 0x1FFFFFFFFFFFFFFF) := by
  refine OnOnes.bind (P := (· = 0x1FFFFFFFFFFFFFFF)) ((onOnes_integer 60).bind ?_) ?_
  · rintro _ rfl
    exact onOnes_pure (by decide)
  · rintro _ rfl
    exact onOnes_pure (by decide)

theorem test_of_ones {rate : Argument} {r : Nat} (hrate : Prime.rounds rate = .ok (r + 1))
    {c : Nat} {answer : Bool} {s s₁ s₂ : Source} (hs : ∀ i, s.byteAt i = 255)
    (hdraw : candidate 61 s = (.ok c, s₁)) :
    Prime.isPrime c rate s₁ ≠ (.ok answer, s₂) := by
  intro htest
  have hones : OnOnes (candidate 61 >>= fun c => Prime.isPrime c rate) fun _ => False := by
    refine onOnes_candidate.bind ?_
    rintro _ rfl
    exact Prime.onOnes_isPrime hrate
  have hstep := hones s hs
  rw [bind_apply, hdraw] at hstep
  simp only [htest] at hstep
  rcases hstep with hstop | ⟨-, _, -, hfalse⟩
  · cases hstop
  · exact hfalse

variable [Machine] {settings : Settings} {k m : Int} (h : settings.Checked 122 k m)
include h

/-- **Key generation need not return** on a source that never fails. -/
theorem neverReturns_of_ones {r : Nat} (hrate : Prime.rounds settings.errorRate = .ok (r + 1))
    {w : Workspace} (hw : ∀ i, w.source.byteAt i = 255) :
    Logged.NeverReturns (privateKey settings) w := by
  intro n
  have hk := h.one_le_primeAttempts
  have hmask : maskFault 61 = none := by
    have := Machine.roomy
    rw [maskFault, if_neg (by decide), if_neg ?_]
    rw [show shiftSize (61 - 2) = 4 by decide]
    omega
  have hsearch : ∃ w', search 61 settings (w.withBudget n) = (.error .sourceExhausted, w') := by
    have hones : ∀ i, (w.withBudget n).source.byteAt i = 255 := hw
    rw [search_of_mask (by decide) h.primeAttempts_count hmask,
      show k.toNat = k.toNat - 1 + 1 by omega]
    have hsize : 2 ≤ Int.toNat 61 := by decide
    rcases searchFrom_succ hrate hsize (k.toNat - 1) 1 (w.withBudget n) with
      ⟨c, s₁, s₂, hdraw, htest, -⟩ | ⟨c, s₁, s₂, hdraw, htest, -⟩ | ⟨cs, s', -, -, hrun⟩
    · exact absurd htest (test_of_ones hrate hones hdraw)
    · exact absurd htest (test_of_ones hrate hones hdraw)
    · exact ⟨_, hrun⟩
  obtain ⟨w', hrun⟩ := hsearch
  rw [privateKey_eq h, show (122 / 2 : Int) = 61 by decide, bind_apply, hrun]

end Generate

end Blum
