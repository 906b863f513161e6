import Mathlib
import Blum.Prime.Test

/-!
# What a draw can yield

A draw either succeeds or is cut short by its source, and it is cut short only
by a request that the source refuses after it has granted those before it.
`Yields d P` says this of `d`, and that whatever `d` returns satisfies `P`.
Composed draws inherit it part by part, so each draw below takes one line per step
of its definition.
-/

namespace Blum

/-- Requests that are granted lead from one source to another. -/
inductive Source.Leads : Source → Source → Prop
  | refl (s : Source) : Leads s s
  | step {n : Nat} {data : List UInt8} {s s₁ s₂ : Source}
      (granted : Draw.bytes n s = (.ok data, s₁)) (rest : Leads s₁ s₂) : Leads s s₂

theorem Source.Leads.trans {s s₁ s₂ : Source} (h : s.Leads s₁) (h' : s₁.Leads s₂) :
    s.Leads s₂ := by
  induction h with
  | refl s => exact h'
  | step granted rest ih => exact .step granted (ih h')

namespace Draw

variable {α β : Type}

/-- From `s` on requests are granted until one is refused, which leaves `s'`. -/
def Refused (s s' : Source) : Prop :=
  ∃ t n, s.Leads t ∧ t.Refuses n ∧ s' = { t with callsUsed := t.callsUsed + 1 }

theorem Refused.of_leads {s t s' : Source} (h : s.Leads t) (hr : Refused t s') :
    Refused s s' := by
  obtain ⟨t', n, hlead, hrefuses, rfl⟩ := hr
  exact ⟨t', n, h.trans hlead, hrefuses, rfl⟩

/-- A draw **yields** values with property `P` if it fails by a refusal only. -/
def Yields (d : Draw α) (P : α → Prop) : Prop :=
  ∀ s, (∃ a s', d s = (.ok a, s') ∧ s.Leads s' ∧ P a) ∨
    ∃ s', d s = (.error .sourceExhausted, s') ∧ Refused s s'

theorem Yields.leads {d : Draw α} {P : α → Prop} (hd : Yields d P) {s s' : Source} {a : α}
    (h : d s = (.ok a, s')) : s.Leads s' := by
  rcases hd s with ⟨b, s₁, hs, hl, -⟩ | ⟨s₁, hs, -⟩
  · cases hs.symm.trans h
    exact hl
  · cases hs.symm.trans h

theorem Yields.refused {d : Draw α} {P : α → Prop} (hd : Yields d P) {s s' : Source} {f : Fault}
    (h : d s = (.error f, s')) : Refused s s' := by
  rcases hd s with ⟨b, s₁, hs, -⟩ | ⟨s₁, hs, hr⟩
  · cases hs.symm.trans h
  · cases hs.symm.trans h
    exact hr

theorem yields_pure {P : α → Prop} {a : α} (h : P a) : Yields (pure a : Draw α) P :=
  fun s => Or.inl ⟨a, s, rfl, .refl s, h⟩

theorem Yields.mono {d : Draw α} {P Q : α → Prop} (h : Yields d P)
    (hPQ : ∀ a, P a → Q a) : Yields d Q := by
  intro s
  rcases h s with ⟨a, s', hs, hl, ha⟩ | hr
  · exact Or.inl ⟨a, s', hs, hl, hPQ a ha⟩
  · exact Or.inr hr

theorem Yields.bind {d : Draw α} {f : α → Draw β} {P : α → Prop} {Q : β → Prop}
    (hd : Yields d P) (hf : ∀ a, P a → Yields (f a) Q) : Yields (d >>= f) Q := by
  intro s
  rw [Stateful.bind_apply]
  rcases hd s with ⟨a, s', hs, hl, ha⟩ | ⟨s', hs, hr⟩
  · rw [hs]
    rcases hf a ha s' with ⟨b, s₂, hs₂, hl₂, hb⟩ | ⟨s₂, hs₂, hr⟩
    · exact Or.inl ⟨b, s₂, hs₂, hl.trans hl₂, hb⟩
    · exact Or.inr ⟨s₂, hs₂, hr.of_leads hl⟩
  · rw [hs]
    exact Or.inr ⟨s', rfl, hr⟩

theorem yields_lift {P : α → Prop} {r : Except Fault α} {a : α} (hr : r = .ok a)
    (h : P a) : Yields (liftM r : Draw α) P := by
  intro s
  rw [Stateful.lift_apply, hr]
  exact Or.inl ⟨a, s, rfl, .refl s, h⟩

theorem yields_bytes (n : Nat) : Yields (bytes n) (·.length = n) := by
  intro s
  by_cases h : s.Refuses n
  · exact Or.inr ⟨_, if_pos h, s, n, .refl s, h, rfl⟩
  · have hs : bytes n s = (.ok (s.next n), { s with
        callsUsed := s.callsUsed + 1, bytesUsed := s.bytesUsed + n }) := if_neg h
    exact Or.inl ⟨s.next n, _, hs, .step hs (.refl _), by simp [Source.next]⟩

/-! ## Repeated attempts -/

section UntilSome

variable {attempt : Draw (Option α)} {hc : attempt.Consumes}

theorem untilSome_eq (s : Source) : untilSome attempt hc s =
    match attempt s with
    | (.error e, s') => (.error e, s')
    | (.ok (some a), s') => (.ok a, s')
    | (.ok none, s') => untilSome attempt hc s' := by
  rw [untilSome]
  split <;> rename_i heq <;> rw [heq]

/-- Repeated attempts yield what a successful attempt yields. The induction is
on the calls that are left, of which each attempt uses up one. -/
theorem Yields.untilSome {P : α → Prop} (h : Yields attempt fun o => ∀ a ∈ o, P a) :
    Yields (untilSome attempt hc) P := by
  intro s
  induction hk : s.callsLeft using Nat.strong_induction_on generalizing s with
  | h k ih =>
      rw [untilSome_eq]
      rcases h s with ⟨o, s', hs, hl, ho⟩ | ⟨s', hs, hr⟩
      · rw [hs]
        cases o with
        | none =>
            rcases ih _ (hk ▸ hc s none s' hs) s' rfl with ⟨a, s₂, hs₂, hl₂, ha⟩ | ⟨s₂, hs₂, hr⟩
            · exact Or.inl ⟨a, s₂, hs₂, hl.trans hl₂, ha⟩
            · exact Or.inr ⟨s₂, hs₂, hr.of_leads hl⟩
        | some a => exact Or.inl ⟨a, s', rfl, hl, ho a rfl⟩
      · rw [hs]
        exact Or.inr ⟨s', rfl, hr⟩

end UntilSome

/-! ## Random integers -/

theorem decode_append_singleton (data : List UInt8) (b : UInt8) :
    Bytes.decode (data ++ [b]) = Bytes.decode data * 256 + b.toNat := by
  simp [Bytes.decode]

theorem decode_append (high low : List UInt8) :
    Bytes.decode (high ++ low) =
      Bytes.decode high * 256 ^ low.length + Bytes.decode low := by
  induction low using List.reverseRecOn with
  | nil => simp [Bytes.decode]
  | append_singleton low b ih =>
      rw [← List.append_assoc, decode_append_singleton, decode_append_singleton, ih,
        List.length_append, List.length_singleton, pow_succ]
      ring

theorem decode_lt (data : List UInt8) : Bytes.decode data < 256 ^ data.length := by
  induction data using List.reverseRecOn with
  | nil => simp [Bytes.decode]
  | append_singleton data b ih =>
      have hb := b.toNat_lt
      rw [decode_append_singleton, List.length_append, List.length_singleton, pow_succ]
      omega

/-- Of the top byte only the bits that do not fill a byte are kept. -/
theorem toNat_topBits (b : UInt8) {k : Nat} (h₀ : 0 < k) (h₈ : k < 8) :
    (b >>> UInt8.ofNat (8 - k)).toNat = b.toNat / 2 ^ (8 - k) := by
  have hshift : (UInt8.ofNat (8 - k)).toNat % 8 = 8 - k := by
    rw [UInt8.toNat_ofNat']
    omega
  rw [UInt8.toNat_shiftRight, hshift, Nat.shiftRight_eq_div_pow]

theorem topBits_lt (b : UInt8) {k : Nat} (h₀ : 0 < k) (h₈ : k < 8) :
    (b >>> UInt8.ofNat (8 - k)).toNat < 2 ^ k := by
  have hb := b.toNat_lt
  rw [toNat_topBits b h₀ h₈, Nat.div_lt_iff_lt_mul (by positivity), ← pow_add]
  rwa [show k + (8 - k) = 8 by omega]

theorem assemble_singleton (width : Nat) (low : List UInt8) (b : UInt8) :
    assemble width low [b] =
      (b >>> UInt8.ofNat (8 - width % 8)).toNat * 256 ^ low.length + Bytes.decode low := by
  rw [assemble, decode_append]
  congr 2
  exact Nat.zero_add _

theorem two_pow_width (width : Nat) :
    2 ^ width = 2 ^ (width % 8) * 256 ^ (width / 8) := by
  rw [show 256 = 2 ^ 8 by rfl, ← pow_mul, ← pow_add, Nat.mod_add_div]

/-- The bytes of an integer leave no room for more than its bits. -/
theorem assemble_lt {width : Nat} {low top : List UInt8} (hlow : low.length = width / 8)
    (htop : top.length = if width % 8 = 0 then 0 else 1) :
    assemble width low top < 2 ^ width := by
  have hlt := decode_lt low
  have hpow : 2 ^ width = 2 ^ (width % 8) * 256 ^ low.length := by
    rw [hlow, two_pow_width]
  rw [hpow]
  split_ifs at htop with h
  · rw [List.length_eq_zero_iff.mp htop, h]
    simpa [assemble, Bytes.decode] using hlt
  · obtain ⟨b, rfl⟩ := List.length_eq_one_iff.mp htop
    have hb := topBits_lt b (k := width % 8) (by omega) (by omega)
    rw [assemble_singleton]
    generalize (b >>> UInt8.ofNat (8 - width % 8)).toNat = c at hb ⊢
    calc c * 256 ^ low.length + Bytes.decode low
        < c * 256 ^ low.length + 256 ^ low.length := Nat.add_lt_add_left hlt _
      _ = (c + 1) * 256 ^ low.length := by ring
      _ ≤ 2 ^ (width % 8) * 256 ^ low.length := Nat.mul_le_mul_right _ hb

theorem yields_integer (width : Nat) : Yields (integer width) (· < 2 ^ width) := by
  refine (yields_bytes _).bind fun low hlow => ?_
  split
  · rename_i h
    exact yields_pure (assemble_lt hlow (by rw [if_pos h]; rfl))
  · rename_i h
    refine (yields_bytes 1).bind fun top htop => ?_
    exact yields_pure (assemble_lt hlow (by rw [if_neg h, htop]))

theorem yields_exactInteger {width : Nat} (h : 0 < width) :
    Yields (exactInteger width) fun v => v < 2 ^ width ∧ v.testBit (width - 1) := by
  refine (yields_integer _).bind fun v hv => yields_pure ?_
  have hle : 2 ^ (width - 1) ≤ 2 ^ width := Nat.pow_le_pow_right (by decide) (by omega)
  have hbit : 1 <<< (width - 1) < 2 ^ width := by
    rw [Nat.one_shiftLeft]
    exact Nat.pow_lt_pow_right (by decide) (by omega)
  refine ⟨Nat.or_lt_two_pow (by omega) hbit, ?_⟩
  rw [Nat.testBit_or, Nat.testBit_shiftLeft]
  simp

theorem yields_choose (low span : Nat) (accept : Nat → Bool) :
    Yields (choose low span accept) fun v => low ≤ v ∧ v ≤ low + span ∧ accept v := by
  refine Yields.untilSome ?_
  refine (yields_integer _).bind fun v _ => yields_pure ?_
  intro a ha
  split at ha
  · rename_i h
    obtain rfl := Option.some.inj ha
    exact ⟨by omega, by omega, h.2⟩
  · cases ha

end Draw

/-! ## Primality tests

Only a refused request stops a test whose error rate asks for some number of
rounds. -/

namespace Prime

open Draw

theorem yields_runRounds (n k : Nat) (used : List Nat) :
    Yields (runRounds n k used) fun _ => True := by
  induction k generalizing used with
  | zero => exact yields_pure trivial
  | succ k ih =>
      refine (yields_choose _ _ _).bind fun a _ => ?_
      split
      · exact ih _
      · exact yields_pure trivial

theorem yields_isPrime (n : Nat) {rate : Argument} {k : Nat} (h : rounds rate = .ok k) :
    Yields (isPrime n rate) fun _ => True := by
  rw [isPrime]
  split
  · exact yields_pure trivial
  · split
    · exact yields_pure trivial
    · refine (yields_lift (P := fun _ => True) h trivial).bind fun k' _ => ?_
      exact yields_runRounds _ _ _

end Prime

end Blum
