import Blum.Stateful

/-! # Byte sources

A source is an endless stream of bytes together with what has been used of it and how much of
it may be used. A request is granted as a whole or not at all: it counts as a call in either
case, and a request that is refused takes no byte. All bytes that a computation sees are thus
the values of `byteAt` at consecutive positions. -/

namespace Blum

/-- A stream of random bytes, and the budget that is spent on it. -/
structure Source where
  /-- The byte at each position of the stream. -/
  byteAt : Nat → UInt8
  /-- How many bytes may be taken altogether. -/
  byteLimit : Nat
  /-- How many requests may be made altogether. -/
  callLimit : Nat
  /-- How many bytes have been taken. -/
  bytesUsed : Nat := 0
  /-- How many requests have been made, refused ones included. -/
  callsUsed : Nat := 0

namespace Source

def empty : Source where
  byteAt _ := 0
  byteLimit := 0
  callLimit := 0

def next (s : Source) (n : Nat) : List UInt8 :=
  (List.range n).map fun i => s.byteAt (s.bytesUsed + i)

def callsLeft (s : Source) : Nat :=
  s.callLimit - s.callsUsed

/-- A request for `n` bytes is refused when it would exceed one of the two limits. -/
def Refuses (s : Source) (n : Nat) : Prop :=
  s.byteLimit < s.bytesUsed + n ∨ s.callLimit < s.callsUsed + 1

instance (s : Source) (n : Nat) : Decidable (s.Refuses n) :=
  inferInstanceAs (Decidable (_ ∨ _))

end Source

/-- A computation that draws from a source. It returns what is left of the source also when it
fails. -/
abbrev Draw (α : Type) := Stateful Source α

namespace Draw

def bytes (n : Nat) : Draw (List UInt8) := fun s =>
  if s.Refuses n then
    (.error .sourceExhausted, { s with callsUsed := s.callsUsed + 1 })
  else
    (.ok (s.next n), { s with
      callsUsed := s.callsUsed + 1
      bytesUsed := s.bytesUsed + n })

/-- A draw is **steady** if its successes never give back calls. -/
def Steady (d : Draw α) : Prop :=
  ∀ s a s', d s = (.ok a, s') → s'.callsLeft ≤ s.callsLeft

/-- A draw **consumes** if each of its successes uses up at least one call. -/
def Consumes (d : Draw α) : Prop :=
  ∀ s a s', d s = (.ok a, s') → s'.callsLeft < s.callsLeft

theorem Consumes.steady {d : Draw α} (h : d.Consumes) : d.Steady :=
  fun s a s' hd => Nat.le_of_lt (h s a s' hd)

theorem steady_pure (a : α) : Steady (pure a : Draw α) := by
  intro s b s' h
  obtain ⟨_, rfl⟩ := Prod.mk.inj h
  exact Nat.le_refl _

theorem Consumes.bind {d : Draw α} {f : α → Draw β} (hd : d.Consumes)
    (hf : ∀ a, (f a).Steady) : Consumes (d >>= f) := by
  intro s b s'' h
  rw [Stateful.bind_apply] at h
  rcases hds : d s with ⟨r, s'⟩
  rw [hds] at h
  cases r with
  | error e => cases congrArg Prod.fst h
  | ok a => exact Nat.lt_of_le_of_lt (hf a s' b s'' h) (hd s a s' hds)

theorem consumes_bytes (n : Nat) : Consumes (bytes n) := by
  intro s a s' h
  unfold bytes at h
  split at h
  · cases congrArg Prod.fst h
  · rename_i hr
    obtain ⟨_, rfl⟩ := Prod.mk.inj h
    simp only [Source.Refuses, not_or, Nat.not_lt] at hr
    simp only [Source.callsLeft]
    omega

/-- Repeats an attempt until it yields a value. Every attempt consumes, so the calls that are
left bound the number of attempts. -/
def untilSome (attempt : Draw (Option α)) (consumes : attempt.Consumes) : Draw α := fun s =>
  match _h : attempt s with
  | (.error e, s') => (.error e, s')
  | (.ok (some a), s') => (.ok a, s')
  | (.ok none, s') => untilSome attempt consumes s'
termination_by s => s.callsLeft
decreasing_by exact consumes _ _ _ _h

end Draw

end Blum
