import Mathlib
import Blum.Fault

/-!
# Faults under a limit on digits

A limit on digits is set for an interpreter as a whole, and there need not be any.
The library neither sets it nor asks for it, so which fault it raises is told without
a limit first. Under a limit a number with too many digits cannot be written, the
text about a fault is written before the fault is raised, and the fault is then
another one, of the kind of plain values. Results that are no faults are not touched,
and neither are faults that cite no number. Theorems about what a caller is told
therefore come in two parts: one without a limit, and one for every limit there may be.
-/

namespace Blum

/-! ## What a limit admits -/

namespace DigitLimit

variable {limit : DigitLimit}

@[simp]
theorem admits_none (i : Int) : Admits none i := nofun

theorem Admits.mono {i j : Int} (hj : limit.Admits j) (h : i.natAbs ≤ j.natAbs) :
    limit.Admits i :=
  fun d hd => Nat.lt_of_le_of_lt h (hj d hd)

/-- The kind of a fault that cites numbers, when it is raised. -/
def kindFor (limit : DigitLimit) (kind : Kind) (numbers : List Int) : Kind :=
  if ∀ i ∈ numbers, limit.Admits i then kind else .value

@[simp]
theorem kindFor_none (kind : Kind) (numbers : List Int) : kindFor none kind numbers = kind :=
  if_pos fun i _ => admits_none i

end DigitLimit

/-! ## What is raised -/

namespace Fault

variable {limit : DigitLimit} {f : Fault}

theorem kind_raised (limit : DigitLimit) (f : Fault) :
    (f.raised limit).kind = limit.kindFor f.kind f.numbers := by
  unfold raised DigitLimit.kindFor
  split_ifs
  · rfl
  · rfl

theorem raised_of_numbers_eq_nil (h : f.numbers = []) : f.raised limit = f := by
  rw [raised, h]
  exact if_pos (List.forall_mem_nil _)

@[simp]
theorem raised_none (f : Fault) : f.raised none = f :=
  if_pos fun i _ => DigitLimit.admits_none i

end Fault

namespace DigitLimit

variable {α : Type} {limit : DigitLimit} {result : Except Fault α}

@[simp]
theorem raised_ok (a : α) : limit.raised (.ok a : Except Fault α) = .ok a := rfl

@[simp]
theorem raised_error (f : Fault) :
    limit.raised (.error f : Except Fault α) = .error (f.raised limit) := rfl

@[simp]
theorem raised_none (result : Except Fault α) : raised none result = result := by
  cases result with
  | ok a => rfl
  | error f => rw [raised_error, Fault.raised_none]

end DigitLimit

namespace Engine

variable {α : Type} {limit : DigitLimit} {result : Except Fault α} {kind : Kind}

def FailsWith (result : Except Fault α) (kind : Kind) : Prop :=
  ∃ f, result = .error f ∧ f.kind = kind

theorem FailsWith.of_eq {f : Fault} (h : result = .error f) (hk : f.kind = kind) :
    FailsWith result kind :=
  ⟨f, h, hk⟩

theorem not_failsWith_of_ok {a : α} (h : result = .ok a) : ¬ FailsWith result kind := by
  rintro ⟨f, hf, -⟩
  rw [h] at hf
  cases hf

/-- A fault is raised with its own kind, unless it cites a number that is not admitted. -/
theorem failsWith_raised {f : Fault} (h : result = .error f) :
    FailsWith (limit.raised result) (limit.kindFor f.kind f.numbers) := by
  rw [h]
  exact ⟨_, rfl, f.kind_raised limit⟩

theorem failsWith_raised_of_numbers_eq_nil {f : Fault} (h : result = .error f)
    (hf : f.numbers = []) : FailsWith (limit.raised result) f.kind := by
  rw [h, DigitLimit.raised_error, Fault.raised_of_numbers_eq_nil hf]
  exact ⟨f, rfl, rfl⟩

end Engine

/-- The least number of 4301 digits. -/
@[irreducible] def tooLong : Int := (Nat.pow 10 4300 : Nat)

theorem not_admits_tooLong : ¬ DigitLimit.Admits (some 4300) tooLong := by decide +kernel

end Blum
