import Mathlib
import Blum.Proofs.Draws

/-!
# Draws from a range

A number of a range is found by a loop: integers of the right width are drawn
until one is small enough. A number of the range with a property is found by a
loop around that loop. The two can be run as one, which draws integers until one
is small enough and has the property, because a number that the outer loop
refuses and an integer that the inner loop refuses are forgotten alike and leave
the same source behind.
-/

namespace Blum

namespace Draw

variable {low span v : Nat} {accept : Nat → Bool} {s s' : Source}

/-! ## One integer -/

theorem attempt_of_integer_ok (h : integer (bitLength span) s = (.ok v, s')) :
    attempt low span accept s =
      (.ok (if v ≤ span ∧ accept (low + v) then some (low + v) else none), s') := by
  rw [attempt, Stateful.bind_apply, h]
  rfl

theorem attempt_of_integer_error {f : Fault} (h : integer (bitLength span) s = (.error f, s')) :
    attempt low span accept s = (.error f, s') := by
  rw [attempt, Stateful.bind_apply, h]

/-! The loop stops with a fault or with an integer that is kept, and else it goes on. -/

theorem choose_of_integer_error {f : Fault} (h : integer (bitLength span) s = (.error f, s')) :
    choose low span accept s = (.error f, s') := by
  rw [choose, untilSome_eq, attempt_of_integer_error h]

theorem choose_of_integer_kept (h : integer (bitLength span) s = (.ok v, s')) (hv : v ≤ span)
    (ha : accept (low + v) = true) : choose low span accept s = (.ok (low + v), s') := by
  rw [choose, untilSome_eq, attempt_of_integer_ok h, if_pos ⟨hv, ha⟩]

theorem choose_of_integer_refused (h : integer (bitLength span) s = (.ok v, s'))
    (hrefused : ¬ (v ≤ span ∧ accept (low + v) = true)) :
    choose low span accept s = choose low span accept s' := by
  rw [choose, untilSome_eq, attempt_of_integer_ok h, if_neg hrefused]

/-! ## A loop around a loop -/

theorem Consumes.untilSome {α : Type} {attempt : Draw (Option α)} (hc : attempt.Consumes) :
    Consumes (untilSome attempt hc) := by
  intro s a s'' h
  induction hk : s.callsLeft using Nat.strong_induction_on generalizing s with
  | h k ih =>
      rw [untilSome_eq] at h
      rcases hs : attempt s with ⟨f | o, s'⟩
      · rw [hs] at h
        cases h
      · have hless : s'.callsLeft < k := hk ▸ hc s o s' hs
        rw [hs] at h
        cases o with
        | none => exact (ih _ hless s' h rfl).trans hless
        | some b =>
            cases h
            exact hless

def ofRange (low span : Nat) : Draw Nat :=
  choose low span fun _ => true

def attemptOfRange (low span : Nat) (accept : Nat → Bool) : Draw (Option Nat) := do
  let v ← ofRange low span
  return if accept v then some v else none

theorem consumes_attemptOfRange (low span : Nat) (accept : Nat → Bool) :
    Consumes (attemptOfRange low span accept) :=
  (consumes_attempt _ _ _).untilSome.bind fun _ => steady_pure _

/-- Numbers of the range are drawn, each by a loop of its own, until one passes `accept`. -/
def chooseOfRange (low span : Nat) (accept : Nat → Bool) : Draw Nat :=
  untilSome (attemptOfRange low span accept) (consumes_attemptOfRange low span accept)

theorem chooseOfRange_eq (s : Source) : chooseOfRange low span accept s =
    match ofRange low span s with
    | (.error f, s') => (.error f, s')
    | (.ok v, s') => if accept v then (.ok v, s') else chooseOfRange low span accept s' := by
  rw [chooseOfRange, untilSome_eq]
  unfold attemptOfRange
  rw [Stateful.bind_apply]
  rcases ofRange low span s with ⟨f | v, s'⟩
  · rfl
  · by_cases ha : accept v = true
    · simp [ha, Stateful.pure_apply]
    · simp [ha, Stateful.pure_apply]

/-- **Two loops are one.** Drawing from a range until a number passes is drawing until an
integer is in the range and passes. The induction is on the calls that are left. -/
theorem chooseOfRange_eq_choose (low span : Nat) (accept : Nat → Bool) (s : Source) :
    chooseOfRange low span accept s = choose low span accept s := by
  induction hk : s.callsLeft using Nat.strong_induction_on generalizing s with
  | h k ih =>
      rw [chooseOfRange_eq]
      rcases hs : integer (bitLength span) s with ⟨f | v, s'⟩
      · rw [ofRange, choose_of_integer_error hs, choose_of_integer_error hs]
      · have hnext := ih _ (hk ▸ consumes_integer _ s v s' hs) s' rfl
        by_cases hv : v ≤ span
        · rw [ofRange, choose_of_integer_kept hs hv rfl]
          by_cases ha : accept (low + v) = true
          · rw [choose_of_integer_kept hs hv ha]
            exact if_pos ha
          · rw [choose_of_integer_refused hs (fun h => ha h.2), ← hnext]
            exact if_neg ha
        -- the inner loop goes on, so the outer one is still in its first attempt
        · rw [ofRange, choose_of_integer_refused hs (fun h => hv h.1), ← ofRange,
            ← chooseOfRange_eq, hnext, choose_of_integer_refused hs (fun h => hv h.1)]

end Draw

end Blum
