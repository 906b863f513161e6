import Mathlib
import Blum.Proofs.Generation
import Blum.Proofs.KeyMaterial

/-!
# The course of key generation and its log

A run consists of one search for the first prime and of a bounded number of
searches for the second. Each search is recorded with its size, the candidates
that it drew and its result; the results alone decide how the run goes on and
what comes of it. The log has one record for each search that found a prime and
at most one more, about the end. The record about a fresh key tells the length
of its modulus, which is always the length that was asked for. So nothing in
the log depends on the primes: it is a function of the settings, the numbers of
candidates and the kind of the outcome.
-/

namespace Blum.Generate

/-! ## What is added to the log -/

def Adds (w w' : Workspace) (records : List LogRecord) : Prop :=
  w'.log.toList = w.log.toList ++ records

theorem Adds.trans {w w₁ w₂ : Workspace} {as bs : List LogRecord} (h₁ : Adds w w₁ as)
    (h₂ : Adds w₁ w₂ bs) : Adds w w₂ (as ++ bs) := by
  rw [Adds, h₂, h₁, List.append_assoc]

theorem adds_nil {w w' : Workspace} (h : w'.log = w.log) : Adds w w' [] := by
  rw [Adds, h, List.append_nil]

theorem adds_push {w w' : Workspace} {r : LogRecord} (h : w'.log = w.log.push r) :
    Adds w w' [r] := by
  rw [Adds, h, Array.toList_push]

/-- The record about an end: `success` about a good one, a warning about a bound
that is exhausted, and none about any other fault. -/
def closing {α : Type} (settings : Settings) (success : List LogRecord) :
    Except Fault α → List LogRecord
  | .ok _ => success
  | .error (.searchExhausted bits attempts) => [.searchExhausted attempts bits.toNat]
  | .error .pairExhausted => [.pairExhausted settings.pairAttempts]
  | .error _ => []

section Closing

variable {α : Type} {settings : Settings} {success : List LogRecord} {f : Fault}

theorem closing_error (β : Type) (success' : List LogRecord) :
    closing settings success (.error f : Except Fault α) =
      closing settings success' (.error f : Except Fault β) := by
  cases f <;> rfl

theorem closing_of_kind_ne (h : f.kind ≠ .keyGeneration) :
    closing settings success (.error f : Except Fault α) = [] := by
  cases f with
  | searchExhausted | pairExhausted => exact absurd rfl h
  | _ => rfl

end Closing

/-! ## One search -/

/-- A search: the size of the prime that it looks for, the candidates that it
draws, in order, and what comes of it. -/
structure SearchRun where
  bits : Int
  drawn : List Nat
  result : Except Fault Nat

namespace SearchRun

def count? (run : SearchRun) : Option Nat :=
  match run.result with
  | .ok _ => some run.drawn.length
  | .error _ => none

def record? (run : SearchRun) : Option LogRecord :=
  run.count?.map (.primeFound run.bits.toNat ·)

/-- What a search that may draw `attempts` candidates does to its source. -/
inductive Made [Machine] (settings : Settings) (attempts : Nat) : SearchRun → Source → Source → Prop
  | found {bits : Int} {cs : List Nat} {c : Nat} {s s' : Source} (hlen : cs.length < attempts)
      (accepted : Accepted bits.toNat settings.errorRate cs c s s') :
      Made settings attempts ⟨bits, cs ++ [c], .ok c⟩ s s'
  | exhausted {bits : Int} {cs : List Nat} {s s' : Source} (hlen : cs.length = attempts)
      (rejected : Rejected bits.toNat settings.errorRate cs s s') :
      Made settings attempts
        ⟨bits, cs, .error (.searchExhausted bits settings.primeAttempts)⟩ s s'
  | refused {bits : Int} {cs : List Nat} {s s' : Source} (hlen : cs.length ≤ attempts)
      (cut : CutShort bits.toNat settings.errorRate cs s s') :
      Made settings attempts ⟨bits, cs, .error .sourceExhausted⟩ s s'
  | noMask {bits : Int} {f : Fault} {s : Source} (h : maskFault bits = some f) :
      Made settings attempts ⟨bits, [], .error f⟩ s s

section

variable {run : SearchRun}

theorem count?_of_ok {c : Nat} (h : run.result = .ok c) : run.count? = some run.drawn.length := by
  rw [count?, h]

theorem count?_of_error {f : Fault} (h : run.result = .error f) : run.count? = none := by
  rw [count?, h]

end

namespace Made

variable [Machine] {settings : Settings} {attempts : Nat} {run : SearchRun} {s s' : Source}
  (h : run.Made settings attempts s s')
include h

theorem length_drawn_le : run.drawn.length ≤ attempts := by
  cases h with
  | found hlen => rwa [List.length_append, List.length_singleton]
  | exhausted hlen => exact hlen.le
  | refused hlen => exact hlen
  | noMask => exact Nat.zero_le attempts

theorem length_drawn_pos {c : Nat} (hc : run.result = .ok c) : 1 ≤ run.drawn.length := by
  cases h with
  | found => rw [List.length_append, List.length_singleton]; exact Nat.le_add_left 1 _
  | exhausted | refused | noMask => cases hc

theorem hasShape {c : Nat} (hbits : 2 ≤ run.bits) (hc : run.result = .ok c) :
    HasShape run.bits.toNat c := by
  cases h with
  | @found bits cs d s s' hlen accepted =>
      cases hc
      have hsize : 2 ≤ bits := hbits
      exact accepted.hasShape (by omega)
  | exhausted | refused | noMask => cases hc

/-- The only failure to generate a key that a search can report is that it ran out
of candidates of its own size. -/
theorem fault_cases {f : Fault} (hf : run.result = .error f) :
    f = .searchExhausted run.bits settings.primeAttempts ∨ f.kind ≠ .keyGeneration := by
  cases h with
  | found => cases hf
  | exhausted =>
      cases hf
      exact Or.inl rfl
  | refused =>
      cases hf
      exact Or.inr (by decide)
  | noMask hmask =>
      cases hf
      exact Or.inr (kind_of_maskFault hmask)

end Made

end SearchRun

section Search

variable [Machine] {settings : Settings} {bits : Int} {attempts r : Nat} (hbits : 2 ≤ bits)
  (hattempts : settings.primeAttempts.count = .ok (attempts : Int))
  (hrate : Prime.rounds settings.errorRate = .ok r)
include hbits hattempts hrate

theorem search_made (w : Workspace) :
    ∃ run : SearchRun, run.bits = bits ∧
      run.Made settings attempts w.source (search bits settings w).2.source ∧
      (search bits settings w).1 = run.result ∧
      Adds w (search bits settings w).2
        (run.record?.toList ++ closing settings [] run.result) := by
  rcases search_cases hbits hattempts hrate w with
    ⟨f, hf, hout⟩ | ⟨cs, c, w', hlen, hacc, hlog, hout⟩ | ⟨cs, w', hlen, hrej, hlog, hout⟩ |
    ⟨cs, w', hlen, hcut, hlog, hout⟩ <;> rw [hout]
  · refine ⟨⟨bits, [], .error f⟩, rfl, .noMask hf, rfl, ?_⟩
    rw [closing_of_kind_ne (kind_of_maskFault hf)]
    exact adds_nil rfl
  · refine ⟨⟨bits, cs ++ [c], .ok c⟩, rfl, .found hlen hacc, rfl, adds_push ?_⟩
    rw [hlog, List.length_append, List.length_singleton]
  · exact ⟨⟨bits, cs, _⟩, rfl, .exhausted hlen hrej, rfl, adds_push hlog⟩
  · exact ⟨⟨bits, cs, _⟩, rfl, .refused hlen hcut, rfl, adds_nil hlog⟩

end Search

/-! ## Searches one after the other -/

theorem filterMap_singleton {α β : Type} (f : α → Option β) (a : α) :
    [a].filterMap f = (f a).toList := by
  cases h : f a <;> simp [h]

/-- The searches are made in this order, each where the one before left the
source. -/
inductive Consecutive [Machine] (settings : Settings) (attempts : Nat) :
    List SearchRun → Source → Source → Prop
  | nil (s : Source) : Consecutive settings attempts [] s s
  | cons {run : SearchRun} {runs : List SearchRun} {s s₁ s₂ : Source}
      (first : run.Made settings attempts s s₁)
      (rest : Consecutive settings attempts runs s₁ s₂) :
      Consecutive settings attempts (run :: runs) s s₂

theorem Consecutive.made [Machine] {settings : Settings} {attempts : Nat} {runs : List SearchRun}
    {s s' : Source} (h : Consecutive settings attempts runs s s') {run : SearchRun}
    (hrun : run ∈ runs) : ∃ s₁ s₂, run.Made settings attempts s₁ s₂ := by
  induction h with
  | nil s => cases hrun
  | cons first rest ih =>
      rcases List.mem_cons.mp hrun with rfl | hrun
      · exact ⟨_, _, first⟩
      · exact ih hrun

theorem Consecutive.hasShape [Machine] {settings : Settings} {attempts : Nat}
    {runs : List SearchRun}
    {s s' : Source} (h : Consecutive settings attempts runs s s') {run : SearchRun} {c : Nat}
    (hrun : run ∈ runs) (hbits : 2 ≤ run.bits) (hc : run.result = .ok c) :
    HasShape run.bits.toNat c := by
  obtain ⟨s₁, s₂, hmade⟩ := h.made hrun
  exact hmade.hasShape hbits hc

/-- The results of a repeated search: either all of them are `p`, `left` in
number, or the last one is the first that is not. -/
inductive Repetition (p left : Nat) : List SearchRun → Except Fault Nat → Prop
  | allSame {runs : List SearchRun} (hlen : runs.length = left)
      (same : ∀ run ∈ runs, run.result = .ok p) :
      Repetition p left runs (.error .pairExhausted)
  | differs {runs : List SearchRun} {last : SearchRun} (hlen : runs.length < left)
      (same : ∀ run ∈ runs, run.result = .ok p) (ne : last.result ≠ .ok p) :
      Repetition p left (runs ++ [last]) last.result

theorem Repetition.cons {p left : Nat} {run : SearchRun} {runs : List SearchRun}
    {out : Except Fault Nat} (hrun : run.result = .ok p) (h : Repetition p left runs out) :
    Repetition p (left + 1) (run :: runs) out := by
  cases h with
  | allSame hlen same =>
      exact .allSame (congrArg Nat.succ hlen) (List.forall_mem_cons.mpr ⟨hrun, same⟩)
  | differs hlen same ne =>
      rw [← List.cons_append]
      exact .differs (Nat.succ_lt_succ hlen) (List.forall_mem_cons.mpr ⟨hrun, same⟩) ne

structure Repeats [Machine] (settings : Settings) (attempts : Nat) (bits : Int) (p left : Nat)
    (w : Workspace) (runs : List SearchRun) (out : Except Fault Nat × Workspace) : Prop where
  consecutive : Consecutive settings attempts runs w.source out.2.source
  sizes : ∀ run ∈ runs, run.bits = bits
  results : Repetition p left runs out.1
  log : Adds w out.2 (runs.filterMap SearchRun.record? ++ closing settings [] out.1)

/-- **The repeated search.** The induction is on the repetitions that are left; a
search that finds `p` again is put in front of those that follow it. -/
theorem searchOther_repeats [Machine] {settings : Settings} {bits : Int} {attempts r : Nat}
    (hbits : 2 ≤ bits) (hattempts : settings.primeAttempts.count = .ok (attempts : Int))
    (hrate : Prime.rounds settings.errorRate = .ok r) (hsecond : settings.secondBits = .ok bits)
    (p left : Nat) (w : Workspace) :
    ∃ runs, Repeats settings attempts bits p left w runs (searchOther p settings left w) := by
  induction left generalizing w with
  | zero =>
      refine ⟨[], .nil _, List.forall_mem_nil _, .allSame rfl (List.forall_mem_nil _), ?_⟩
      rw [searchOther]
      exact adds_push rfl
  | succ left ih =>
      obtain ⟨run, hsize, hmade, hresult, hlog⟩ := search_made hbits hattempts hrate w
      rw [searchOther_succ hsecond, Stateful.bind_apply]
      generalize search bits settings w = out at hmade hresult hlog
      obtain ⟨result, w₁⟩ := out
      obtain rfl : result = run.result := hresult
      have hsizes : ∀ run' ∈ [run], run'.bits = bits := by
        intro run' h
        rw [List.mem_singleton.mp h, hsize]
      have hlast (ne : run.result ≠ .ok p) : Repeats settings attempts bits p (left + 1) w
          [run] (run.result, w₁) := by
        refine ⟨.cons hmade (.nil _), hsizes, ?_, ?_⟩
        · rw [← List.nil_append [run]]
          exact .differs (Nat.succ_pos left) (List.forall_mem_nil _) ne
        · rw [filterMap_singleton]
          exact hlog
      cases hr : run.result with
      | error f =>
          rw [hr] at hlast
          exact ⟨[run], hlast (by simp)⟩
      | ok q =>
          by_cases hq : q = p
          · subst hq
            simp only [if_true]
            obtain ⟨runs, hrest⟩ := ih w₁
            refine ⟨run :: runs, .cons hmade hrest.consecutive, ?_, hrest.results.cons hr, ?_⟩
            · exact List.forall_mem_cons.mpr ⟨hsize, hrest.sizes⟩
            · have hfirst := hlog.trans hrest.log
              simpa [hr, closing, SearchRun.record?, SearchRun.count?_of_ok hr] using hfirst
          · simp only [hq, if_false]
            rw [hr] at hlast
            exact ⟨[run], hlast (by simpa using hq)⟩

namespace Repetition

variable {p left : Nat} {runs : List SearchRun} {out : Except Fault Nat}

theorem length_le (h : Repetition p left runs out) : runs.length ≤ left := by
  cases h with
  | allSame hlen => exact hlen.le
  | differs hlen => rwa [List.length_append, List.length_singleton]

theorem again (h : Repetition p left runs out) :
    ∀ run ∈ runs.dropLast, run.result = .ok p := by
  cases h with
  | allSame hlen same => exact fun run hrun => same run (List.mem_of_mem_dropLast hrun)
  | differs hlen same =>
      rw [List.dropLast_concat]
      exact same

theorem found {q : Nat} (h : Repetition p left runs (.ok q)) :
    q ≠ p ∧ ∃ run ∈ runs, run.result = .ok q := by
  generalize hout : (.ok q : Except Fault Nat) = out at h
  cases h with
  | allSame => cases hout
  | @differs same last hlen hsame ne =>
      rw [← hout] at ne
      exact ⟨fun hq => ne (congrArg Except.ok hq), last, List.mem_append_right _
        (List.mem_singleton_self last), rfl⟩

end Repetition

/-! ## A whole run -/

/-- What comes of a run is decided by the results of its searches: the first one
fails, or it finds `p` and is followed by those for the second prime, `m` of
them at most. -/
inductive Course (m : Nat) : SearchRun → List SearchRun → Except Fault PrivateKey → Prop
  | firstFails {first : SearchRun} {f : Fault} (h : first.result = .error f) :
      Course m first [] (.error f)
  | goesOn {first : SearchRun} {others : List SearchRun} {p : Nat} {out : Except Fault Nat}
      (h : first.result = .ok p) (rest : Repetition p m others out) :
      Course m first others (out >>= fun q => PrivateKey.ofFactors p q 1 1)

namespace Course

variable {m : Nat} {first : SearchRun} {others : List SearchRun} {out : Except Fault PrivateKey}

theorem length_le (h : Course m first others out) : others.length ≤ m := by
  cases h with
  | firstFails => exact Nat.zero_le m
  | goesOn hfirst rest => exact rest.length_le

theorem eq_nil_of_error (h : Course m first others out) {f : Fault}
    (hf : first.result = .error f) : others = [] := by
  cases h with
  | firstFails => rfl
  | goesOn hfirst rest => cases hf.symm.trans hfirst

theorem again (h : Course m first others out) :
    ∀ run ∈ others.dropLast, ∃ p, first.result = .ok p ∧ run.result = .ok p := by
  intro run hrun
  cases h with
  | firstFails => cases hrun
  | goesOn hfirst rest => exact ⟨_, hfirst, rest.again run hrun⟩

end Course

/-- A run of key generation for `b` bits, with at most `k` candidates a search and
at most `m` searches for the second prime: its searches and their sizes, its
outcome and what it adds to the log. -/
structure Account [Machine] (settings : Settings) (b k m : Int) (w : Workspace) (first : SearchRun)
    (others : List SearchRun) (out : Except Fault PrivateKey × Workspace) : Prop where
  consecutive : Consecutive settings k.toNat (first :: others) w.source out.2.source
  first_size : first.bits = b / 2
  other_sizes : ∀ run ∈ others, run.bits = b - b / 2
  course : Course m.toNat first others out.1
  log : Adds w out.2 ((first :: others).filterMap SearchRun.record? ++
    closing settings [.keyGenerated b.toNat] out.1)

/-- Behind the searches the source stays as it is. The record about the key tells the
length that was asked for, since the product of two candidates has it. -/
theorem record_ofFactors (settings : Settings) {b : Int} {p q : Nat} (hb : 16 ≤ b)
    (hp : HasShape (b / 2).toNat p) (hq : HasShape (b - b / 2).toNat q) (hne : q ≠ p)
    (w : Workspace) :
    ∃ w', ((liftM (PrivateKey.ofFactors p q 1 1) : Logged PrivateKey) >>= fun key =>
        Logged.record (.keyGenerated (bitLength key.n.toNat)) >>= fun _ => pure key) w =
          (PrivateKey.ofFactors p q 1 1, w') ∧
      w'.source = w.source ∧
      Adds w w' (closing settings [.keyGenerated b.toNat] (PrivateKey.ofFactors p q 1 1)) := by
  rw [Stateful.bind_apply, Stateful.lift_apply]
  by_cases hgcd : Nat.gcd p q = 1
  · obtain ⟨key, hkey, hfresh⟩ := isFresh_of_gcd_eq_one hb hp hq hne hgcd
    have hlength : bitLength key.n.toNat = b.toNat := by
      have := hfresh.length
      omega
    rw [hkey]
    refine ⟨_, rfl, rfl, ?_⟩
    show Adds w _ [.keyGenerated b.toNat]
    rw [← hlength]
    exact adds_push rfl
  · obtain ⟨hkey, -⟩ := mismatch_of_gcd_ne_one hq hne hgcd
    rw [hkey]
    exact ⟨w, rfl, rfl, adds_nil rfl⟩

section Account

variable [Machine] {settings : Settings} {b k m : Int} (h : settings.Checked b k m)
include h

/-- **Every run has an account.** -/
theorem exists_account (w : Workspace) :
    ∃ first others, Account settings b k m w first others (privateKey settings w) := by
  have hb := h.sixteen_le
  have hp2 : 2 ≤ b / 2 := by omega
  have hq2 : 2 ≤ b - b / 2 := by omega
  obtain ⟨r, hrate⟩ := h.rounds
  obtain ⟨first, hsize, hmade, hresult, hlog⟩ :=
    search_made hp2 h.primeAttempts_count hrate w
  rw [privateKey_eq h, Stateful.bind_apply]
  generalize search (b / 2) settings w = out at hmade hresult hlog
  obtain ⟨result, w₁⟩ := out
  obtain rfl : result = first.result := hresult
  cases hfirst : first.result with
  | error f =>
      refine ⟨first, [], .cons hmade (.nil _), hsize, List.forall_mem_nil _,
        .firstFails hfirst, ?_⟩
      rw [filterMap_singleton, closing_error Nat []]
      rw [hfirst] at hlog
      exact hlog
  | ok p =>
      obtain ⟨others, hothers⟩ := searchOther_repeats hq2 h.primeAttempts_count hrate
        h.secondBits_eq p m.toNat w₁
      show ∃ first others, Account _ _ _ _ _ _ _ ((searchOther p settings m.toNat >>= _) w₁)
      rw [Stateful.bind_apply]
      generalize searchOther p settings m.toNat w₁ = out at hothers
      obtain ⟨result, w₂⟩ := out
      have hcourse := Course.goesOn hfirst hothers.results
      have hfound : Adds w w₂ ((first :: others).filterMap SearchRun.record? ++
          closing settings [] result) := by
        have hboth := hlog.trans hothers.log
        simpa [hfirst, closing, SearchRun.record?, SearchRun.count?_of_ok hfirst] using hboth
      have hrun : Consecutive settings k.toNat (first :: others) w.source w₂.source :=
        .cons hmade hothers.consecutive
      cases result with
      | error f =>
          refine ⟨first, others, hrun, hsize, hothers.sizes, hcourse, ?_⟩
          rw [closing_error Nat []]
          exact hfound
      | ok q =>
          obtain ⟨hne, run, hmem, hq⟩ := hothers.results.found
          have hsize' := hothers.sizes run hmem
          have hshape := hrun.hasShape List.mem_cons_self (by omega) hfirst
          have hshape' := hothers.consecutive.hasShape hmem (by omega) hq
          rw [hsize] at hshape
          rw [hsize'] at hshape'
          obtain ⟨w₃, hout, hsource, hlast⟩ :=
            record_ofFactors settings hb hshape hshape' hne w₂
          refine ⟨first, others, ?_⟩
          show Account _ _ _ _ _ _ _ (((liftM (PrivateKey.ofFactors p q 1 1) :
            Logged PrivateKey) >>= _) w₂)
          rw [hout]
          rw [← hsource] at hrun
          have hnone : closing settings [] (.ok q : Except Fault Nat) = [] := rfl
          rw [hnone, List.append_nil] at hfound
          exact ⟨hrun, hsize, hothers.sizes, hcourse, hfound.trans hlast⟩

end Account

end Blum.Generate
