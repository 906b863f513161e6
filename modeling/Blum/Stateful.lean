import Blum.Fault

/-! # Stateful computations

Computations that can fail and that keep their state when they do: what was drawn, written or
printed before a fault remains. The equations here run a computation one step at a time. -/

namespace Blum

/-- A computation on a state that survives faults. -/
abbrev Stateful (σ α : Type) := ExceptT Fault (StateM σ) α

namespace Stateful

variable {σ α β : Type}

theorem pure_apply (a : α) (s : σ) : (pure a : Stateful σ α) s = (.ok a, s) := rfl

/-- **A sequence stops at the first fault, with the state that the fault leaves.** -/
theorem bind_apply (d : Stateful σ α) (f : α → Stateful σ β) (s : σ) :
    (d >>= f) s =
      match d s with
      | (.ok a, s') => f a s'
      | (.error e, s') => (.error e, s') := by
  simp only [Bind.bind, ExceptT.bind, ExceptT.mk, StateT.bind]
  rcases d s with ⟨r, s'⟩
  cases r <;> rfl

theorem lift_apply (r : Except Fault α) (s : σ) :
    (liftM r : Stateful σ α) s = (r, s) := by
  cases r <;> rfl

end Stateful

end Blum
