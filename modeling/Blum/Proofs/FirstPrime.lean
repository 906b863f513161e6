import Mathlib
import Blum.Proofs.Generation
import Blum.Proofs.MillerRabin

/-!
# A search stops at its first prime

The candidates of a search and the bases of its tests come from one source,
and how many bases a test asks for depends on the candidate. None of this can
make a search pass over a prime: no test turns one away. So whatever a search
rejects is composite, and the first prime that it draws ends it, unless the
source is exhausted while that prime is tested.
-/

namespace Blum.Generate

def Composite (n : Nat) : Prop := 1 < n ∧ ¬ n.Prime

/-! ## What a search rejects -/

theorem HasShape.one_lt {bits c : Nat} (h : HasShape bits c) : 1 < c := by
  have := h.mod_four
  omega

section Rejected

variable {settings : Settings} {r : Nat} (hrate : Prime.rounds settings.errorRate = .ok r)
include hrate

theorem not_prime_of_isPrime {c : Nat} {s s' : Source}
    (h : Prime.isPrime c settings.errorRate s = (.ok false, s')) : ¬ c.Prime := by
  intro hc
  rcases Prime.yields_isPrime_of_prime hrate hc s with ⟨answer, s₁, hs, -, htrue⟩ | ⟨s₁, hs, -⟩
  · cases hs.symm.trans h
    cases htrue
  · cases hs.symm.trans h

/-- **A search rejects nothing but composite numbers.** The induction is on the
candidates that were rejected. -/
theorem Rejected.composite {bits : Nat} (hbits : 2 ≤ bits) {cs : List Nat} {s s' : Source}
    (h : Rejected bits settings.errorRate cs s s') : ∀ d ∈ cs, Composite d := by
  induction h with
  | nil s =>
      intro d hd
      cases hd
  | cons draw test rest ih =>
      intro d hd
      rcases List.mem_cons.mp hd with rfl | hd
      · exact ⟨(hasShape_of_candidate hbits draw).one_lt, not_prime_of_isPrime hrate test⟩
      · exact ih d hd

/-! ## The first prime -/

omit hrate in
/-- Behind the candidates that it rejects a search goes on as if it had begun
there, with fewer candidates left. -/
theorem searchFrom_of_rejected {bits : Nat} {cs : List Nat} {s s' : Source}
    (h : Rejected bits settings.errorRate cs s s') (left k : Nat) (log : Array LogRecord) :
    searchFrom bits settings (cs.length + left) k ⟨s, log⟩ =
      searchFrom bits settings left (k + cs.length) ⟨s', log⟩ := by
  induction h generalizing k with
  | nil s => rw [List.length_nil, Nat.zero_add, Nat.add_zero]
  | @cons c cs s s₁ s₂ s₃ draw test rest ih =>
      rw [List.length_cons, Nat.add_right_comm, searchFrom, Stateful.bind_apply,
        Logged.ofDraw_apply]
      simp only [draw, Stateful.bind_apply, Logged.ofDraw_apply, test]
      show searchFrom bits settings (cs.length + left) (k + 1) ⟨s₂, log⟩ = _
      rw [ih, Nat.add_assoc, Nat.add_comm 1]

/-- A prime at the head of a search is its result, if its test comes to an end. -/
theorem searchFrom_of_prime {bits c : Nat} {s s₁ : Source} (hc : c.Prime)
    (draw : candidate bits s = (.ok c, s₁)) (left k : Nat) (log : Array LogRecord) :
    (∃ s', Prime.isPrime c settings.errorRate s₁ = (.ok true, s') ∧
      searchFrom bits settings (left + 1) k ⟨s, log⟩ =
        (.ok c, ⟨s', log.push (.primeFound bits k)⟩)) ∨
    ∃ s', Prime.isPrime c settings.errorRate s₁ = (.error .sourceExhausted, s') ∧
      searchFrom bits settings (left + 1) k ⟨s, log⟩ =
        (.error .sourceExhausted, ⟨s', log⟩) := by
  rw [searchFrom, Stateful.bind_apply, Logged.ofDraw_apply]
  simp only [draw, Stateful.bind_apply, Logged.ofDraw_apply]
  rcases Prime.yields_isPrime_of_prime hrate hc s₁ with ⟨answer, s', htest, -, rfl⟩ | ⟨s', htest, -⟩
  · exact Or.inl ⟨s', htest, by rw [htest]; rfl⟩
  · exact Or.inr ⟨s', htest, by rw [htest]⟩

end Rejected

/-- **No prime is passed over.** What a search finds is the last candidate that it draws, and
all candidates before it are composite; so are all candidates of a search that finds none. A
prime that is drawn is therefore the result of the search, whatever bases its test is given,
unless the source is exhausted by that test. -/
theorem search_firstPrime [Machine] {settings : Settings} {b k m : Int} (h : settings.Checked b k m)
    {bits : Int} (hbits : 2 ≤ bits) (w : Workspace) :
    (∀ c w', search bits settings w = (.ok c, w') →
      ∃ cs, cs.length < k.toNat ∧ (∀ d ∈ cs, Composite d) ∧
        Accepted bits.toNat settings.errorRate cs c w.source w'.source) ∧
    (∀ f w', search bits settings w = (.error f, w') → f.kind = .keyGeneration →
      ∃ cs, cs.length = k.toNat ∧ (∀ d ∈ cs, Composite d) ∧
        Rejected bits.toNat settings.errorRate cs w.source w'.source) ∧
    ∀ cs c s₁ s₂, maskFault bits = none → cs.length < k.toNat →
      Rejected bits.toNat settings.errorRate cs w.source s₁ →
      candidate bits.toNat s₁ = (.ok c, s₂) → c.Prime →
      (∃ s', Prime.isPrime c settings.errorRate s₂ = (.ok true, s') ∧
        search bits settings w =
          (.ok c, ⟨s', w.log.push (.primeFound bits.toNat (cs.length + 1))⟩)) ∨
      ∃ s', Prime.isPrime c settings.errorRate s₂ = (.error .sourceExhausted, s') ∧
        search bits settings w = (.error .sourceExhausted, ⟨s', w.log⟩) := by
  obtain ⟨r, hrate⟩ := h.rounds
  have hsize : 2 ≤ bits.toNat := by omega
  have hattempts := h.primeAttempts_count
  have hcases := search_cases hbits hattempts hrate w
  refine ⟨?_, ?_, ?_⟩
  · intro c w' hrun
    rw [hrun] at hcases
    rcases hcases with ⟨f, -, hout⟩ | ⟨cs, d, w₁, hlen, hacc, -, hout⟩ |
      ⟨cs, w₁, -, -, -, hout⟩ | ⟨cs, w₁, -, -, -, hout⟩ <;> cases hout
    obtain ⟨s₁, s₂, hrej, hlast⟩ := hacc
    exact ⟨cs, hlen, hrej.composite hrate hsize, s₁, s₂, hrej, hlast⟩
  · intro f w' hrun hkind
    rw [hrun] at hcases
    rcases hcases with ⟨g, hmask, hout⟩ | ⟨cs, d, w₁, -, -, -, hout⟩ |
      ⟨cs, w₁, hlen, hrej, -, hout⟩ | ⟨cs, w₁, -, -, -, hout⟩ <;> cases hout
    · exact absurd hkind (kind_of_maskFault hmask)
    · exact ⟨cs, hlen, hrej.composite hrate hsize, hrej⟩
    · cases hkind
  · intro cs c s₁ s₂ hmask hlen hrej hdraw hc
    obtain ⟨left, hleft⟩ : ∃ left, k.toNat = cs.length + (left + 1) :=
      ⟨k.toNat - cs.length - 1, by omega⟩
    rw [search_of_mask hbits hattempts hmask, hleft, searchFrom_of_rejected hrej,
      Nat.add_comm 1]
    exact searchFrom_of_prime hrate hc hdraw left _ w.log

def compositeFirst : Source where
  byteAt i := if i = 0 then 0 else 142
  byteLimit := 2
  callLimit := 4

theorem search_firstPrime_eight_bits :
    Settings.Checked { bits := .int 16 } 16 20000 100 ∧ (2 : Int) ≤ 8 ∧
      ∃ w', search 8 { bits := .int 16 } { source := compositeFirst } = (.ok 199, w') ∧
        ∃ cs, cs.length < 20000 ∧ (∀ d ∈ cs, Composite d) ∧
          Accepted 8 (.float 1e-6) cs 199 compositeFirst w'.source := by
  have h : Settings.Checked { bits := .int 16 } 16 20000 100 := ⟨rfl, rfl, rfl, rfl⟩
  have hfound : (search 8 { bits := .int 16 } { source := compositeFirst }).1.toOption =
      some 199 := by
    decide +kernel
  refine ⟨h, by decide, ?_⟩
  rcases hrun : search 8 { bits := .int 16 } { source := compositeFirst } with ⟨f | c, w'⟩ <;>
    rw [hrun] at hfound
  · cases hfound
  · obtain rfl := Option.some.inj hfound
    exact ⟨w', rfl,
      (search_firstPrime h (by decide) { source := compositeFirst }).1 199 w' hrun⟩

end Blum.Generate
