import Mathlib
import Blum.Key.Generate
import Blum.Proofs.Candidates

/-!
# The searches of key generation

What the two bounded loops do, as relations between the workspaces before and
after. A search tries one candidate after the other; it finds a prime, runs
out of candidates, or is cut short by its source. The second search is
repeated while it finds the first prime again. Each relation fixes the
candidates that were drawn, the answers of the primality test and the records
that were written.
-/

namespace Blum

namespace Logged

theorem ofDraw_apply {α : Type} (d : Draw α) (w : Workspace) :
    (liftM d : Logged α) w = ((d w.source).1, { w with source := (d w.source).2 }) := rfl

end Logged

namespace Generate

/-! ## One search -/

/-- The candidates `cs` are drawn one after the other and found composite. -/
inductive Rejected (bits : Nat) (rate : Argument) :
    List Nat → Source → Source → Prop
  | nil (s : Source) : Rejected bits rate [] s s
  | cons {c : Nat} {cs : List Nat} {s s₁ s₂ s₃ : Source}
      (draw : candidate bits s = (.ok c, s₁))
      (test : Prime.isPrime c rate s₁ = (.ok false, s₂))
      (rest : Rejected bits rate cs s₂ s₃) : Rejected bits rate (c :: cs) s s₃

/-- After the candidates `cs` the candidate `c` is drawn and found prime. -/
def Accepted (bits : Nat) (rate : Argument) (cs : List Nat) (c : Nat)
    (s s' : Source) : Prop :=
  ∃ s₁ s₂, Rejected bits rate cs s s₁ ∧ candidate bits s₁ = (.ok c, s₂) ∧
    Prime.isPrime c rate s₂ = (.ok true, s')

/-- The candidates `cs` are drawn before the source refuses a request. It may be
the request for the next candidate or one of the test of the last one. -/
inductive CutShort (bits : Nat) (rate : Argument) : List Nat → Source → Source → Prop
  | draw {cs : List Nat} {s s₁ s' : Source} (rejected : Rejected bits rate cs s s₁)
      (refusal : candidate bits s₁ = (.error .sourceExhausted, s')) :
      CutShort bits rate cs s s'
  | test {cs : List Nat} {c : Nat} {s s₁ s₂ s' : Source}
      (rejected : Rejected bits rate cs s s₁) (drawn : candidate bits s₁ = (.ok c, s₂))
      (refusal : Prime.isPrime c rate s₂ = (.error .sourceExhausted, s')) :
      CutShort bits rate (cs ++ [c]) s s'

/-- A search of at most `attempts` candidates finds `c`. -/
def Found (bits attempts : Nat) (rate : Argument) (c : Nat) (w w' : Workspace) : Prop :=
  ∃ cs, cs.length < attempts ∧ Accepted bits rate cs c w.source w'.source ∧
    w'.log = w.log.push (.primeFound bits (cs.length + 1))

/-- A search finds all its candidates composite, `attempts` in number. -/
def Exhausted (bits attempts : Nat) (settings : Settings) (w w' : Workspace) : Prop :=
  ∃ cs, cs.length = attempts ∧ Rejected bits settings.errorRate cs w.source w'.source ∧
    w'.log = w.log.push (.searchExhausted settings.primeAttempts bits)

/-- The source refuses a request before a search of at most `attempts` candidates
is over. -/
def Interrupted (bits attempts : Nat) (rate : Argument) (w w' : Workspace) : Prop :=
  ∃ cs, cs.length ≤ attempts ∧ CutShort bits rate cs w.source w'.source ∧
    Draw.Refused w.source w'.source ∧ w'.log = w.log

theorem Accepted.cons {bits : Nat} {rate : Argument} {c d : Nat} {cs : List Nat}
    {s s₁ s₂ s' : Source} (draw : candidate bits s = (.ok c, s₁))
    (test : Prime.isPrime c rate s₁ = (.ok false, s₂))
    (rest : Accepted bits rate cs d s₂ s') : Accepted bits rate (c :: cs) d s s' := by
  obtain ⟨s₃, s₄, hcs, hd⟩ := rest
  exact ⟨s₃, s₄, .cons draw test hcs, hd⟩

theorem CutShort.cons {bits : Nat} {rate : Argument} {c : Nat} {cs : List Nat}
    {s s₁ s₂ s' : Source} (draw : candidate bits s = (.ok c, s₁))
    (test : Prime.isPrime c rate s₁ = (.ok false, s₂))
    (rest : CutShort bits rate cs s₂ s') : CutShort bits rate (c :: cs) s s' := by
  cases rest with
  | draw rejected refusal => exact .draw (.cons draw test rejected) refusal
  | test rejected drawn refusal => exact .test (.cons draw test rejected) drawn refusal

theorem Accepted.hasShape {bits : Nat} {rate : Argument} {cs : List Nat} {c : Nat}
    {s s' : Source} (hbits : 2 ≤ bits) (h : Accepted bits rate cs c s s') :
    HasShape bits c := by
  obtain ⟨s₁, s₂, -, hdraw, -⟩ := h
  exact hasShape_of_candidate hbits hdraw

theorem Found.hasShape {bits attempts : Nat} {rate : Argument} {c : Nat}
    {w w' : Workspace} (hbits : 2 ≤ bits) (h : Found bits attempts rate c w w') :
    HasShape bits c := by
  obtain ⟨cs, -, hacc, -⟩ := h
  exact hacc.hasShape hbits

section SearchFrom

variable {settings : Settings} {r : Nat} (hrate : Prime.rounds settings.errorRate = .ok r)
  {bits : Nat} (hbits : 2 ≤ bits)
include hrate hbits

theorem Rejected.leads {cs : List Nat} {s s' : Source}
    (h : Rejected bits settings.errorRate cs s s') : s.Leads s' := by
  induction h with
  | nil s => exact .refl s
  | cons draw test rest ih =>
      have hdraw := (yields_candidate hbits).leads draw
      have htest := (Prime.yields_isPrime _ hrate).leads test
      exact hdraw.trans (htest.trans ih)

theorem CutShort.refused {cs : List Nat} {s s' : Source}
    (h : CutShort bits settings.errorRate cs s s') : Draw.Refused s s' := by
  cases h with
  | draw rejected refusal =>
      exact ((yields_candidate hbits).refused refusal).of_leads (rejected.leads hrate hbits)
  | test rejected drawn refusal =>
      have hleads := (rejected.leads hrate hbits).trans ((yields_candidate hbits).leads drawn)
      exact ((Prime.yields_isPrime _ hrate).refused refusal).of_leads hleads

/-- One candidate: it is found prime, found composite, or not tested to the
end. -/
theorem searchFrom_succ (left k : Nat) (w : Workspace) :
    (∃ c s₁ s₂, candidate bits w.source = (.ok c, s₁) ∧
      Prime.isPrime c settings.errorRate s₁ = (.ok true, s₂) ∧
      searchFrom bits settings (left + 1) k w =
        (.ok c, ⟨s₂, w.log.push (.primeFound bits k)⟩)) ∨
    (∃ c s₁ s₂, candidate bits w.source = (.ok c, s₁) ∧
      Prime.isPrime c settings.errorRate s₁ = (.ok false, s₂) ∧
      searchFrom bits settings (left + 1) k w =
        searchFrom bits settings left (k + 1) ⟨s₂, w.log⟩) ∨
    ∃ cs s', cs.length ≤ 1 ∧ CutShort bits settings.errorRate cs w.source s' ∧
      searchFrom bits settings (left + 1) k w = (.error .sourceExhausted, ⟨s', w.log⟩) := by
  rw [searchFrom, Stateful.bind_apply, Logged.ofDraw_apply]
  rcases yields_candidate hbits w.source with ⟨c, s₁, hdraw, -⟩ | ⟨s₁, hdraw, -⟩
  · simp only [hdraw, Stateful.bind_apply, Logged.ofDraw_apply]
    rcases Prime.yields_isPrime c hrate s₁ with ⟨b, s₂, htest, -⟩ | ⟨s₂, htest, -⟩
    · cases b with
      | true => exact Or.inl ⟨c, s₁, s₂, rfl, htest, by rw [htest]; rfl⟩
      | false => exact Or.inr (Or.inl ⟨c, s₁, s₂, rfl, htest, by rw [htest]; rfl⟩)
    · exact Or.inr (Or.inr ⟨[c], s₂, Nat.le_refl 1, .test (.nil _) hdraw htest,
        by rw [htest]⟩)
  · exact Or.inr (Or.inr ⟨[], s₁, Nat.zero_le 1, .draw (.nil _) hdraw, by rw [hdraw]⟩)

/-- **The search loop.** The induction is on the candidates that may still be
tried; a composite one is put in front of those that follow. -/
theorem searchFrom_cases (left k : Nat) (w : Workspace) :
    (∃ cs c w', cs.length < left ∧
      Accepted bits settings.errorRate cs c w.source w'.source ∧
      w'.log = w.log.push (.primeFound bits (k + cs.length)) ∧
      searchFrom bits settings left k w = (.ok c, w')) ∨
    (∃ cs w', cs.length = left ∧
      Rejected bits settings.errorRate cs w.source w'.source ∧
      w'.log = w.log.push (.searchExhausted settings.primeAttempts bits) ∧
      searchFrom bits settings left k w =
        (.error (.searchExhausted bits settings.primeAttempts), w')) ∨
    ∃ cs w', cs.length ≤ left ∧ CutShort bits settings.errorRate cs w.source w'.source ∧
      w'.log = w.log ∧ searchFrom bits settings left k w = (.error .sourceExhausted, w') := by
  induction left generalizing k w with
  | zero =>
      exact Or.inr (Or.inl ⟨[], { w with log := w.log.push _ }, rfl, .nil _, rfl, rfl⟩)
  | succ left ih =>
      rcases searchFrom_succ hrate hbits left k w with
        ⟨c, s₁, s₂, hdraw, htest, hrun⟩ | ⟨c, s₁, s₂, hdraw, htest, hrun⟩ |
        ⟨cs, s', hlen, hcut, hrun⟩
      · exact Or.inl ⟨[], c, _, Nat.succ_pos _, ⟨_, _, .nil _, hdraw, htest⟩, rfl, hrun⟩
      · rw [hrun]
        -- the composite candidate joins whatever the rest of the search rejects
        rcases ih (k + 1) ⟨s₂, w.log⟩ with
          ⟨cs, d, w', hlen, hacc, hlog, hout⟩ | ⟨cs, w', hlen, hrej, hlog, hout⟩ |
          ⟨cs, w', hlen, hcut, hlog, hout⟩
        · refine Or.inl ⟨c :: cs, d, w', ?_, hacc.cons hdraw htest, ?_, hout⟩
          · simpa using hlen
          · rw [hlog, List.length_cons, Nat.add_right_comm, Nat.add_assoc]
        · exact Or.inr (Or.inl ⟨c :: cs, w', by simpa using hlen,
            .cons hdraw htest hrej, hlog, hout⟩)
        · exact Or.inr (Or.inr ⟨c :: cs, w', by simpa using hlen,
            hcut.cons hdraw htest, hlog, hout⟩)
      · exact Or.inr (Or.inr ⟨cs, ⟨s', w.log⟩, by omega, hcut, rfl, hrun⟩)

end SearchFrom

/-! ## The mask -/

/-- Why the mask of a size cannot be made: the shift is out of bounds, or its
result does not fit into memory. -/
def maskFault [Machine] (bits : Int) : Option Fault :=
  if maxShift < bits - 2 then some .tooLarge
  else if Machine.memory < shiftSize (bits - 2) then some .outOfMemory
  else none

theorem kind_of_maskFault [Machine] {bits : Int} {f : Fault} (h : maskFault bits = some f) :
    f.kind ≠ .keyGeneration := by
  unfold maskFault at h
  split_ifs at h <;> cases h <;> decide

section Search

variable [Machine] {settings : Settings} {attempts : Nat} {bits : Int} (hbits : 2 ≤ bits)
include hbits

theorem search_of_maskFault {f : Fault} (hf : maskFault bits = some f) (w : Workspace) :
    search bits settings w = (.error f, w) := by
  unfold maskFault at hf
  unfold search
  rw [if_neg (by omega)]
  split_ifs at hf with h₁ h₂
  · obtain rfl := Option.some.inj hf
    rw [if_pos h₁]
    rfl
  · obtain rfl := Option.some.inj hf
    rw [if_neg h₁, if_pos h₂]
    rfl

theorem search_of_mask (hattempts : settings.primeAttempts.count = .ok (attempts : Int))
    (hf : maskFault bits = none) (w : Workspace) :
    search bits settings w = searchFrom bits.toNat settings attempts 1 w := by
  unfold maskFault at hf
  unfold search
  split_ifs at hf with h₁ h₂
  rw [if_neg (by omega), if_neg h₁, if_neg h₂, hattempts]
  rfl

end Search

/-! ## How the searches end -/

/-- The ends of one search: what it returns and the workspace it leaves. -/
inductive SearchEnds [Machine] (bits : Int) (attempts : Nat) (settings : Settings)
    (w : Workspace) : Except Fault Nat × Workspace → Prop
  | found {c : Nat} {w' : Workspace}
      (h : Found bits.toNat attempts settings.errorRate c w w') :
      SearchEnds bits attempts settings w (.ok c, w')
  | exhausted {w' : Workspace} (h : Exhausted bits.toNat attempts settings w w') :
      SearchEnds bits attempts settings w
        (.error (.searchExhausted bits settings.primeAttempts), w')
  | interrupted {w' : Workspace}
      (h : Interrupted bits.toNat attempts settings.errorRate w w') :
      SearchEnds bits attempts settings w (.error .sourceExhausted, w')
  | noMask {f : Fault} (h : maskFault bits = some f) :
      SearchEnds bits attempts settings w (.error f, w)

inductive Repeated (bits attempts : Nat) (rate : Argument) (p : Nat) :
    Nat → Workspace → Workspace → Prop
  | zero (w : Workspace) : Repeated bits attempts rate p 0 w w
  | succ {n : Nat} {w w₁ w₂ : Workspace} (first : Found bits attempts rate p w w₁)
      (rest : Repeated bits attempts rate p n w₁ w₂) :
      Repeated bits attempts rate p (n + 1) w w₂

/-- The ends of the repeated search for a prime other than `p`. -/
inductive OtherEnds [Machine] (bits : Int) (attempts : Nat) (settings : Settings)
    (p left : Nat) (w : Workspace) : Except Fault Nat × Workspace → Prop
  | found {n q : Nat} {w₁ w₂ : Workspace} (hn : n < left)
      (same : Repeated bits.toNat attempts settings.errorRate p n w w₁)
      (other : Found bits.toNat attempts settings.errorRate q w₁ w₂) (ne : q ≠ p) :
      OtherEnds bits attempts settings p left w (.ok q, w₂)
  | exhausted {n : Nat} {w₁ w₂ : Workspace} (hn : n < left)
      (same : Repeated bits.toNat attempts settings.errorRate p n w w₁)
      (none : Exhausted bits.toNat attempts settings w₁ w₂) :
      OtherEnds bits attempts settings p left w
        (.error (.searchExhausted bits settings.primeAttempts), w₂)
  | allSame {w₁ : Workspace}
      (same : Repeated bits.toNat attempts settings.errorRate p left w w₁) :
      OtherEnds bits attempts settings p left w
        (.error .pairExhausted,
          { w₁ with log := w₁.log.push (.pairExhausted settings.pairAttempts) })
  | interrupted {n : Nat} {w₁ w₂ : Workspace} (hn : n < left)
      (same : Repeated bits.toNat attempts settings.errorRate p n w w₁)
      (cut : Interrupted bits.toNat attempts settings.errorRate w₁ w₂) :
      OtherEnds bits attempts settings p left w (.error .sourceExhausted, w₂)
  | noMask {n : Nat} {f : Fault} {w₁ : Workspace} (hn : n < left)
      (same : Repeated bits.toNat attempts settings.errorRate p n w w₁)
      (h : maskFault bits = some f) :
      OtherEnds bits attempts settings p left w (.error f, w₁)

theorem OtherEnds.of_found [Machine] {bits : Int} {attempts : Nat} {settings : Settings}
    {p left : Nat} {w w₁ : Workspace} {out : Except Fault Nat × Workspace}
    (first : Found bits.toNat attempts settings.errorRate p w w₁)
    (rest : OtherEnds bits attempts settings p left w₁ out) :
    OtherEnds bits attempts settings p (left + 1) w out := by
  cases rest with
  | found hn same other ne => exact .found (by omega) (.succ first same) other ne
  | exhausted hn same none => exact .exhausted (by omega) (.succ first same) none
  | allSame same => exact .allSame (.succ first same)
  | interrupted hn same cut => exact .interrupted (by omega) (.succ first same) cut
  | noMask hn same h => exact .noMask (by omega) (.succ first same) h

section Ends

variable [Machine] {settings : Settings} {bits : Int} {attempts r : Nat} (hbits : 2 ≤ bits)
  (hattempts : settings.primeAttempts.count = .ok (attempts : Int))
  (hrate : Prime.rounds settings.errorRate = .ok r)
include hbits hattempts hrate

/-- **One search** ends in four ways: its mask cannot be made, it finds a prime, it
runs out of candidates, or its source refuses a request. -/
theorem search_cases (w : Workspace) :
    (∃ f, maskFault bits = some f ∧ search bits settings w = (.error f, w)) ∨
    (∃ cs c w', cs.length < attempts ∧
      Accepted bits.toNat settings.errorRate cs c w.source w'.source ∧
      w'.log = w.log.push (.primeFound bits.toNat (cs.length + 1)) ∧
      search bits settings w = (.ok c, w')) ∨
    (∃ cs w', cs.length = attempts ∧
      Rejected bits.toNat settings.errorRate cs w.source w'.source ∧
      w'.log = w.log.push (.searchExhausted settings.primeAttempts bits.toNat) ∧
      search bits settings w =
        (.error (.searchExhausted bits settings.primeAttempts), w')) ∨
    ∃ cs w', cs.length ≤ attempts ∧
      CutShort bits.toNat settings.errorRate cs w.source w'.source ∧ w'.log = w.log ∧
      search bits settings w = (.error .sourceExhausted, w') := by
  cases hf : maskFault bits with
  | some f => exact Or.inl ⟨f, rfl, search_of_maskFault hbits hf w⟩
  | none =>
      have hsize : 2 ≤ bits.toNat := by omega
      have hcast : ((bits.toNat : Nat) : Int) = bits := Int.toNat_of_nonneg (by omega)
      have hcases := searchFrom_cases hrate hsize attempts 1 w
      rw [← search_of_mask hbits hattempts hf, hcast] at hcases
      rcases hcases with ⟨cs, c, w', hlen, hacc, hlog, hout⟩ | hrest
      · rw [Nat.add_comm] at hlog
        exact Or.inr (Or.inl ⟨cs, c, w', hlen, hacc, hlog, hout⟩)
      · exact Or.inr (Or.inr hrest)

theorem search_ends (w : Workspace) :
    SearchEnds bits attempts settings w (search bits settings w) := by
  rcases search_cases hbits hattempts hrate w with
    ⟨f, hf, hout⟩ | ⟨cs, c, w', hlen, hacc, hlog, hout⟩ | ⟨cs, w', hlen, hrej, hlog, hout⟩ |
    ⟨cs, w', hlen, hcut, hlog, hout⟩ <;> rw [hout]
  · exact .noMask hf
  · exact .found ⟨cs, hlen, hacc, hlog⟩
  · exact .exhausted ⟨cs, hlen, hrej, hlog⟩
  · exact .interrupted ⟨cs, hlen, hcut, hcut.refused hrate (by omega), hlog⟩

omit hbits hattempts hrate in
/-- One repetition: a search whose result ends the loop unless it is `p`. -/
theorem searchOther_succ (hsecond : settings.secondBits = .ok bits) (p left : Nat)
    (w : Workspace) : searchOther p settings (left + 1) w =
      (search bits settings >>= fun q =>
        if q = p then searchOther p settings left else pure q) w := by
  rw [searchOther, Stateful.bind_apply, Stateful.lift_apply, hsecond]

/-- **The repeated search.** The induction is on the repetitions that are
left, of which each search that finds `p` again uses up one. -/
theorem searchOther_ends (hsecond : settings.secondBits = .ok bits) (p left : Nat)
    (w : Workspace) :
    OtherEnds bits attempts settings p left w (searchOther p settings left w) := by
  induction left generalizing w with
  | zero => exact .allSame (.zero w)
  | succ left ih =>
      rw [searchOther_succ hsecond, Stateful.bind_apply]
      have hends := search_ends hbits hattempts hrate w
      generalize search bits settings w = out at hends
      cases hends with
      | found h =>
          rename_i q w'
          by_cases hq : q = p
          · subst hq
            simp only [if_true]
            exact .of_found h (ih w')
          · simp only [hq, if_false]
            exact .found (Nat.succ_pos _) (.zero w) h hq
      | exhausted h => exact .exhausted (Nat.succ_pos _) (.zero w) h
      | interrupted h => exact .interrupted (Nat.succ_pos _) (.zero w) h
      | noMask h => exact .noMask (Nat.succ_pos _) (.zero w) h

end Ends

end Generate

end Blum
