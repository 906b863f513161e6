import Mathlib
import Blum.Proofs.Courses

/-!
# What the log of key generation tells

The log of a run is a function of three things: the settings, the numbers of
candidates of the searches that found a prime, and the kind of the outcome.
`report` is that function. It never sees a candidate, so two runs that agree in
these three things write the same log, whatever their primes are. How many
searches found a prime tells which bound was exhausted if one was, and the
length of a fresh modulus is the one that was asked for.
-/

namespace Blum.Generate

/-- The kind of an outcome, or nothing for a good one. -/
def ending {α : Type} : Except Fault α → Option Kind
  | .ok _ => none
  | .error f => some f.kind

def counts (runs : List SearchRun) : List Nat :=
  runs.filterMap SearchRun.count?

/-! ## The log as a function -/

def foundRecords (b : Int) : List Nat → List LogRecord
  | [] => []
  | count :: rest =>
    .primeFound (b / 2).toNat count :: rest.map (.primeFound (b - b / 2).toNat ·)

/-- The record about the end, if `found` searches found a prime. Without any the
first search has failed, and with one more than there may be for the second
prime they all found the first one. -/
def lastRecord (settings : Settings) (b m : Int) (found : Nat) : Option Kind → List LogRecord
  | none => [.keyGenerated b.toNat]
  | some .keyGeneration =>
    if found = 0 then [.searchExhausted settings.primeAttempts (b / 2).toNat]
    else if found ≤ m.toNat then [.searchExhausted settings.primeAttempts (b - b / 2).toNat]
    else [.pairExhausted settings.pairAttempts]
  | some _ => []

/-- The log of a run for `b` bits with at most `m` searches for the second prime. -/
def report (settings : Settings) (b m : Int) (counts : List Nat) (ending : Option Kind) :
    List LogRecord :=
  foundRecords b counts ++ lastRecord settings b m counts.length ending

def lastLevel : Option Kind → List Level
  | none => [.info]
  | some .keyGeneration => [.warning]
  | some _ => []

theorem level_report (settings : Settings) (b m : Int) (counts : List Nat)
    (ending : Option Kind) :
    (report settings b m counts ending).map LogRecord.level =
      counts.map (fun _ => .debug) ++ lastLevel ending := by
  have hfound : (foundRecords b counts).map LogRecord.level =
      counts.map (fun _ => .debug) := by
    cases counts with
    | nil => rfl
    | cons count rest => simp [foundRecords, LogRecord.level, Function.comp_def]
  have hlast (found : Nat) : (lastRecord settings b m found ending).map LogRecord.level =
      lastLevel ending := by
    unfold lastRecord lastLevel
    split
    · rfl
    · split_ifs <;> rfl
    · rfl
  rw [report, List.map_append, hfound, hlast]

/-! ## What an account says -/

theorem filterMap_record? {bits : Int} {runs : List SearchRun}
    (h : ∀ run ∈ runs, run.bits = bits) :
    runs.filterMap SearchRun.record? = (counts runs).map (.primeFound bits.toNat ·) := by
  rw [counts, List.map_filterMap]
  refine List.filterMap_congr fun run hrun => ?_
  rw [SearchRun.record?, h run hrun]

theorem length_counts {runs : List SearchRun} {p : Nat}
    (h : ∀ run ∈ runs, run.result = .ok p) : (counts runs).length = runs.length := by
  rw [counts, List.filterMap_length_eq_length]
  intro run hrun
  rw [SearchRun.count?_of_ok (h run hrun)]
  rfl

namespace Account

variable [Machine] {settings : Settings} {b k m : Int} {w : Workspace} {first : SearchRun}
  {others : List SearchRun} {out : Except Fault PrivateKey × Workspace}
  (a : Account settings b k m w first others out)
include a

theorem drawn_bounds {run : SearchRun} (hrun : run ∈ first :: others) :
    run.drawn.length ≤ k.toNat ∧ ∀ c, run.result = .ok c → 1 ≤ run.drawn.length := by
  obtain ⟨s₁, s₂, hmade⟩ := a.consecutive.made hrun
  exact ⟨hmade.length_drawn_le, fun c => hmade.length_drawn_pos⟩

theorem first_fault {f : Fault} (hf : first.result = .error f) :
    f = .searchExhausted (b / 2) settings.primeAttempts ∨ f.kind ≠ .keyGeneration := by
  obtain ⟨s₁, s₂, hmade⟩ := a.consecutive.made List.mem_cons_self
  rw [← a.first_size]
  exact hmade.fault_cases hf

theorem other_fault {run : SearchRun} (hrun : run ∈ others) {f : Fault}
    (hf : run.result = .error f) :
    f = .searchExhausted (b - b / 2) settings.primeAttempts ∨ f.kind ≠ .keyGeneration := by
  obtain ⟨s₁, s₂, hmade⟩ := a.consecutive.made (List.mem_cons_of_mem first hrun)
  rw [← a.other_sizes run hrun]
  exact hmade.fault_cases hf

/-- How many searches find a prime before a run fails, by what it fails with. -/
theorem fault_cases {f : Fault} (hf : out.1 = .error f) :
    f = .searchExhausted (b / 2) settings.primeAttempts ∧
      (counts (first :: others)).length = 0 ∨
    f = .searchExhausted (b - b / 2) settings.primeAttempts ∧
      0 < (counts (first :: others)).length ∧
      (counts (first :: others)).length ≤ m.toNat ∨
    f = .pairExhausted ∧ (counts (first :: others)).length = m.toNat + 1 ∧
      others.length = m.toNat ∧ (∀ run ∈ others, run.result = first.result) ∨
    f.kind ≠ .keyGeneration := by
  have hcourse := a.course
  rw [hf] at hcourse
  generalize hresult : (.error f : Except Fault PrivateKey) = result at hcourse
  cases hcourse with
  | firstFails hfirst =>
      cases hresult
      rcases a.first_fault hfirst with hexhausted | hkind
      · refine Or.inl ⟨hexhausted, ?_⟩
        simp [counts, SearchRun.count?_of_error hfirst]
      · exact Or.inr (Or.inr (Or.inr hkind))
  | goesOn hfirst rest =>
      have hcounts : (counts (first :: others)).length = (counts others).length + 1 := by
        simp [counts, SearchRun.count?_of_ok hfirst]
      cases rest with
      | allSame hlen same =>
          cases hresult
          refine Or.inr (Or.inr (Or.inl ⟨rfl, ?_, hlen, ?_⟩))
          · rw [hcounts, length_counts same, hlen]
          · rw [hfirst]
            exact same
      | @differs runs last hlen same ne =>
          cases hlast : last.result with
          | ok q =>
              rw [hlast] at hresult
              refine Or.inr (Or.inr (Or.inr ?_))
              rw [PrivateKey.kind_of_ofFactors_error hresult.symm]
              decide
          | error g =>
              rw [hlast] at hresult
              cases hresult
              have hmem : last ∈ runs ++ [last] :=
                List.mem_append_right _ (List.mem_singleton_self last)
              rcases a.other_fault hmem hlast with hexhausted | hkind
              · have hall : (counts (runs ++ [last])).length = runs.length := by
                  rw [counts, List.filterMap_append, List.length_append, ← counts,
                    length_counts same]
                  simp [SearchRun.count?_of_error hlast]
                exact Or.inr (Or.inl ⟨hexhausted, by omega, by omega⟩)
              · exact Or.inr (Or.inr (Or.inr hkind))

/-- The searches that find a prime are reported with the sizes that they have by
their positions. -/
theorem filterMap_record?_eq : (first :: others).filterMap SearchRun.record? =
    foundRecords b (counts (first :: others)) := by
  cases hfirst : first.result with
  | error f =>
      obtain rfl : others = [] := a.course.eq_nil_of_error hfirst
      simp [counts, SearchRun.record?, SearchRun.count?_of_error hfirst, foundRecords]
  | ok p =>
      have hcounts : counts (first :: others) = first.drawn.length :: counts others := by
        simp [counts, SearchRun.count?_of_ok hfirst]
      have hrecord : first.record? = some (.primeFound (b / 2).toNat first.drawn.length) := by
        rw [SearchRun.record?, SearchRun.count?_of_ok hfirst, a.first_size]
        rfl
      rw [hcounts, foundRecords, ← filterMap_record? a.other_sizes,
        List.filterMap_cons_some hrecord]

theorem closing_eq : closing settings [.keyGenerated b.toNat] out.1 =
    lastRecord settings b m (counts (first :: others)).length (ending out.1) := by
  cases hout : out.1 with
  | ok key => rfl
  | error f =>
      rcases a.fault_cases hout with
        ⟨rfl, hfound⟩ | ⟨rfl, hpos, hle⟩ | ⟨rfl, hfound, -⟩ | hkind
      · rw [hfound]
        rfl
      · show _ = if _ then _ else _
        rw [if_neg (by omega), if_pos hle]
        rfl
      · show _ = if _ then _ else _
        rw [if_neg (by omega), if_neg (by omega)]
        rfl
      · rw [closing_of_kind_ne hkind, ending, lastRecord]
        exact hkind

/-- **The log is the report** on the numbers of candidates and the kind of the
outcome. -/
theorem adds_report :
    Adds w out.2 (report settings b m (counts (first :: others)) (ending out.1)) := by
  rw [report, ← a.filterMap_record?_eq, ← a.closing_eq]
  exact a.log

/-- The pair is given up exactly if all searches that are allowed find the first
prime again. -/
theorem eq_pairExhausted_iff (hm : 1 ≤ m) : out.1 = .error .pairExhausted ↔
    others.length = m.toNat ∧ ∀ run ∈ others, run.result = first.result := by
  constructor
  · intro hout
    rcases a.fault_cases hout with ⟨h, -⟩ | ⟨h, -⟩ | ⟨-, -, hall⟩ | hkind
    · cases h
    · cases h
    · exact hall
    · exact absurd rfl hkind
  · rintro ⟨hlen, hall⟩
    have hcourse := a.course
    generalize out.1 = result at hcourse
    cases hcourse with
    | firstFails =>
        rw [List.length_nil] at hlen
        omega
    | goesOn hfirst rest =>
        cases rest with
        | allSame => rfl
        | @differs runs last _ _ ne =>
            refine absurd ?_ ne
            rw [← hfirst]
            exact hall last (List.mem_append_right _ (List.mem_singleton_self last))

theorem result_ne_of_odd (hb : 16 ≤ b) (hodd : b % 2 = 1) {run : SearchRun}
    (hrun : run ∈ others) {p : Nat} (hfirst : first.result = .ok p) : run.result ≠ .ok p := by
  intro hsame
  have hsize := a.first_size
  have hsize' := a.other_sizes run hrun
  have hlength := (a.consecutive.hasShape List.mem_cons_self (by omega) hfirst).length
  have hlength' :=
    (a.consecutive.hasShape (List.mem_cons_of_mem first hrun) (by omega) hsame).length
  omega

theorem length_others_of_odd (hb : 16 ≤ b) (hodd : b % 2 = 1) : others.length ≤ 1 := by
  have hnil : others.dropLast = [] := by
    refine List.eq_nil_iff_forall_not_mem.mpr fun run hrun => ?_
    obtain ⟨p, hfirst, hsame⟩ := a.course.again run hrun
    exact a.result_ne_of_odd hb hodd (List.mem_of_mem_dropLast hrun) hfirst hsame
  have hlen := congrArg List.length hnil
  rw [List.length_dropLast, List.length_nil] at hlen
  omega

theorem ne_pairExhausted_of_odd (hb : 16 ≤ b) (hm : 1 ≤ m) (hodd : b % 2 = 1) :
    out.1 ≠ .error .pairExhausted := by
  intro hout
  obtain ⟨hlen, hall⟩ := (a.eq_pairExhausted_iff hm).mp hout
  obtain ⟨run, hrun⟩ := List.exists_mem_of_length_pos (l := others) (by omega)
  cases hfirst : first.result with
  | error f => rw [a.course.eq_nil_of_error hfirst] at hrun; cases hrun
  | ok p => exact a.result_ne_of_odd hb hodd hrun hfirst ((hall run hrun).trans hfirst)

end Account

/-- **The course of a run and what its log tells.** One search for the first prime is followed by
at most `m` searches for the second, of at most `k` candidates each, and all but the last of them
find the first prime again. The log gains one record for each search that finds a prime, in order,
and one about the end: the length of the modulus for a key, the bound that is exhausted for a
failure to generate one, and nothing otherwise. It is the same for all runs with the same numbers
of candidates and the same kind of outcome. If the modulus has an odd length, the first search for
the second prime decides. -/
theorem privateKey_report [Machine] {settings : Settings} {b k m : Int}
    (h : settings.Checked b k m) :
    (∀ w, ∃ first others, Account settings b k m w first others (privateKey settings w)) ∧
    (∀ w first others, Account settings b k m w first others (privateKey settings w) →
      others.length ≤ m.toNat ∧
      (∀ run ∈ others.dropLast, ∃ p, first.result = .ok p ∧ run.result = .ok p) ∧
      (∀ run ∈ first :: others, run.drawn.length ≤ k.toNat ∧
        ∀ c, run.result = .ok c → 1 ≤ run.drawn.length) ∧
      ((privateKey settings w).1 = .error .pairExhausted ↔
        others.length = m.toNat ∧ ∀ run ∈ others, run.result = first.result) ∧
      (b % 2 = 1 → others.length ≤ 1 ∧ (privateKey settings w).1 ≠ .error .pairExhausted) ∧
      Adds w (privateKey settings w).2
        (report settings b m (counts (first :: others)) (ending (privateKey settings w).1))) ∧
    (∀ w₁ first₁ others₁ w₂ first₂ others₂,
      Account settings b k m w₁ first₁ others₁ (privateKey settings w₁) →
      Account settings b k m w₂ first₂ others₂ (privateKey settings w₂) →
      counts (first₁ :: others₁) = counts (first₂ :: others₂) →
      ending (privateKey settings w₁).1 = ending (privateKey settings w₂).1 →
      ∃ records, Adds w₁ (privateKey settings w₁).2 records ∧
        Adds w₂ (privateKey settings w₂).2 records) ∧
    ∀ counts ending, (report settings b m counts ending).map LogRecord.level =
      counts.map (fun _ => .debug) ++ lastLevel ending := by
  have hb := h.sixteen_le
  have hm := h.one_le_pairAttempts
  refine ⟨exists_account h, ?_, ?_, level_report settings b m⟩
  · intro w first others a
    exact ⟨a.course.length_le, a.course.again, fun run => a.drawn_bounds,
      a.eq_pairExhausted_iff hm,
      fun hodd => ⟨a.length_others_of_odd hb hodd, a.ne_pairExhausted_of_odd hb hm hodd⟩,
      a.adds_report⟩
  · intro w₁ first₁ others₁ w₂ first₂ others₂ a₁ a₂ hcounts hending
    refine ⟨_, a₁.adds_report, ?_⟩
    rw [hcounts, hending]
    exact a₂.adds_report

/-- The key of 199 and 211 is made by one search for each of them. -/
theorem privateKey_report_sixteen_bits :
    Settings.Checked { bits := .int 16 } 16 20000 100 ∧
      ∃ first others,
        Account { bits := .int 16 } 16 20000 100 { source := twoPrimes } first others
          (privateKey { bits := .int 16 } { source := twoPrimes }) ∧
        others.length ≤ 100 ∧
        Adds { source := twoPrimes } (privateKey { bits := .int 16 } { source := twoPrimes }).2
          (report { bits := .int 16 } 16 100 (counts (first :: others)) none) := by
  have h : Settings.Checked { bits := .int 16 } 16 20000 100 := ⟨rfl, rfl, rfl, rfl⟩
  obtain ⟨hexists, hall, -⟩ := privateKey_report h
  obtain ⟨first, others, a⟩ := hexists { source := twoPrimes }
  obtain ⟨hlen, -, -, -, -, hadds⟩ := hall _ first others a
  have hending : ending (privateKey { bits := .int 16 } { source := twoPrimes }).1 = none := by
    decide +kernel
  rw [hending] at hadds
  exact ⟨h, first, others, a, hlen, hadds⟩

def twoOtherPrimes : Source where
  byteAt i := if i % 2 = 0 then 142 else 190
  byteLimit := 2
  callLimit := 4

/-- Other primes, the same log. -/
example :
    (privateKey { bits := .int 16 } { source := twoPrimes }).2.log =
        #[.primeFound 8 1, .primeFound 8 1, .keyGenerated 16] ∧
      (privateKey { bits := .int 16 } { source := twoOtherPrimes }).2.log =
        #[.primeFound 8 1, .primeFound 8 1, .keyGenerated 16] ∧
      (privateKey { bits := .int 16 } { source := twoOtherPrimes }).1.map (·.n) =
        .ok (199 * 223) := by
  decide +kernel

end Blum.Generate
