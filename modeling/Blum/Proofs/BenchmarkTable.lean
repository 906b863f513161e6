import Mathlib
import Blum.Proofs.Doubles
import Blum.Proofs.SelfChecks

/-!
# The table of the benchmark

A benchmark with prime factors finds every element that it draws, so nothing can
fail before the table. The table divides, though. Each row behind the one for key
generation shows the share of one operation in a time, and what the time is
divided by is the number of operations as it was given, since no command line is
refused for it.

So there are three ends. Nothing can be divided by zero, or by a number that no
double comes close to, and then the run ends behind the row for key generation.
By all other numbers the times can be divided, also by negative ones, for which
nothing is drawn.
-/

namespace Blum

namespace Engine

open PrivateKey

variable {key : PrivateKey} (hp : key.p.toNat.Prime) (hq : key.q.toNat.Prime) {ys : List Int}
  (hys : ∀ y ∈ ys, y ∈ unitSquares key.n)
include hp hq hys

theorem mapM_invert_of_mem_unitSquares :
    ys.mapM key.engine.invert = .ok (ys.map key.combinedRoot) := by
  have : Fact key.p.toNat.Prime := ⟨hp⟩
  have : Fact key.q.toNat.Prime := ⟨hq⟩
  rw [← squares_eq_unitSquares] at hys
  exact mapM_eq_ok_map fun y hy => invert_of_mem_squares (hys y hy)

theorem mapM_accepts_of_mem_unitSquares :
    ys.mapM key.engine.accepts = .ok (ys.map fun _ => true) := by
  have : Fact key.p.toNat.Prime := ⟨hp⟩
  have : Fact key.q.toNat.Prime := ⟨hq⟩
  rw [← squares_eq_unitSquares] at hys
  exact mapM_eq_ok_map fun y hy => accepts_of_check_valid (check_of_mem_squares (hys y hy))

end Engine

namespace Command

open Stateful Script

variable {γ : Type} {now : StateM γ Float} {bits : Argument} {count : Int} {s : Session}

/-! ## Division -/

/-- **Which numbers divide a time.** -/
theorem perOperation_eq (time : Float) (count : Int) :
    perOperation time count =
      if Quantity.doubleBound ≤ count.natAbs then .error .tooLarge
      else if count = 0 then .error .divisionByZero
      else .ok (time / Float.ofInt count) := by
  unfold perOperation
  simp only [Double.isInf_ofInt_iff]

/-- What divides no time. No number is both zero and out of range. -/
inductive Indivisible (count : Int) : Fault → Prop
  | zero (h : count = 0) : Indivisible count .divisionByZero
  | outOfRange (h : Quantity.doubleBound ≤ count.natAbs) : Indivisible count .tooLarge

theorem Indivisible.perOperation {f : Fault} (h : Indivisible count f) (time : Float) :
    perOperation time count = .error f := by
  rw [perOperation_eq]
  cases h with
  | zero h =>
      obtain rfl := h
      have hpos : ¬ Quantity.doubleBound ≤ (0 : Int).natAbs := by
        have hbound := Double.two_pow_lt_doubleBound
        rw [Int.natAbs_zero]
        omega
      rw [if_neg hpos, if_pos rfl]
  | outOfRange h => rw [if_pos h]

theorem exists_indivisible_or (count : Int) :
    (∃ f, Indivisible count f) ∨ (count ≠ 0 ∧ count.natAbs < Quantity.doubleBound) := by
  rcases eq_or_ne count 0 with h0 | h0
  · exact .inl ⟨_, .zero h0⟩
  rcases le_or_gt Quantity.doubleBound count.natAbs with hbound | hbound
  · exact .inl ⟨_, .outOfRange hbound⟩
  · exact .inr ⟨h0, hbound⟩

/-! ## The table -/

def headLines (bits : Argument) (count : Int) (generateTime : Float) : List String :=
  bannerLines s!"Rabin Benchmark ({bits.shown}-bit modulus, {(Argument.int count).shown} ops)" ++
    ["", tableLine "Operation" "Total" "Per op", "  " ++ "".pushn '─' 44,
      tableLine "Key generation" (Text.duration generateTime) ""]

def timesRow (count : Int) (label : String) (time : Float) : String :=
  tableLine label (Text.duration time) (Text.duration (time / Float.ofInt count))

def timesRows (count : Int) (applyTime invertTime checkTime : Float) : List String :=
  [timesRow count "apply" applyTime, timesRow count "invert" invertTime,
    timesRow count "validity check" checkTime]

theorem says_timesLine (h0 : count ≠ 0) (hbound : count.natAbs < Quantity.doubleBound)
    (label : String) (time : Float) :
    Says (timesLine label time count : Script (StateM γ) Unit) [timesRow count label time] := by
  intro s Q hQ
  have hshare : perOperation time count = .ok (time / Float.ofInt count) := by
    rw [perOperation_eq, if_neg hbound.not_ge, if_neg h0]
  refine Reaches.bind (reaches_lift ?_)
  rw [hshare]
  exact says_say _ _ _ hQ

theorem reaches_timesLine_of_indivisible {f : Fault} (h : Indivisible count f) (label : String)
    (time : Float) {Q : Except Fault Unit × Session → Prop} (hQ : Q (.error f, s)) :
    Reaches (timesLine label time count : Script (StateM γ) Unit) s Q := by
  refine Reaches.bind (reaches_lift ?_)
  rw [h.perOperation]
  exact hQ

/-- How a benchmark ends once its elements are drawn. -/
inductive Tabulated (bits : Argument) (count : Int) (s : Session) (w : Workspace) :
    Except Fault Unit × Session → Prop
  | complete (generateTime applyTime invertTime checkTime : Float) (nonzero : count ≠ 0)
      (inRange : count.natAbs < Quantity.doubleBound) :
      Tabulated bits count s w
        (.ok (), s.after w
          (headLines bits count generateTime ++ timesRows count applyTime invertTime checkTime))
  | broken {f : Fault} (generateTime : Float) (indivisible : Indivisible count f) :
      Tabulated bits count s w (.error f, s.after w (headLines bits count generateTime))

/-- The rows are printed one by one, and the first of them is where the run can end. -/
theorem reaches_timesLines {w : Workspace} (generateTime applyTime invertTime checkTime : Float) :
    Reaches (do
        timesLine "apply" applyTime count
        timesLine "invert" invertTime count
        timesLine "validity check" checkTime count : Script (StateM γ) Unit)
      (s.after w (headLines bits count generateTime)) (Tabulated bits count s w) := by
  rcases exists_indivisible_or count with ⟨f, hf⟩ | ⟨h0, hbound⟩
  · refine Reaches.bind (reaches_timesLine_of_indivisible hf _ _ ?_)
    exact .broken generateTime hf
  · refine (says_timesLine h0 hbound _ _).bind ((says_timesLine h0 hbound _ _).bind
      ((says_timesLine h0 hbound _ _).reaches ?_))
    have hrows : Tabulated bits count s w _ :=
      .complete generateTime applyTime invertTime checkTime h0 hbound
    simpa [timesRows] using hrows

/-- Key generation gives a key with prime factors, and then no draw fails. -/
inductive Drawn [Machine] (bits : Argument) (count : Int) (w w' : Workspace) : Prop
  | intro {key : PrivateKey} {w₁ : Workspace} {elements : List Int}
      (p_prime : key.p.toNat.Prime) (q_prime : key.q.toNat.Prime)
      (generate : Engine.generate { bits } w = (.ok key.engine, w₁))
      (draw : (liftM (drawElements key.engine count.toNat []) : Logged (List Int)) w₁ =
        (.ok elements, w'))

/-- **The benchmark fails in its divisions or not at all.** -/
theorem reaches_benchmark [Machine] {w : Workspace} (h : Drawn bits count s.workspace w) :
    Reaches (benchmark now bits (.int count)) s (Tabulated bits count s w) := by
  obtain @⟨key, w₁, elements, hp, hq, hgenerate, hdraw⟩ := h
  have hmem : ∀ y ∈ elements, y ∈ unitSquares key.n :=
    (Logged.ensures_ofDraw
      (ensures_drawElements key.engine count.toNat (List.forall_mem_nil _))).of_ok hdraw
  have hroots := Engine.mapM_invert_of_mem_unitSquares hp hq hmem
  suffices hreach : Reaches (benchmark now bits (.int count)) (s.after s.workspace [])
      (Tabulated bits count s w) by
    rwa [s.after_nil] at hreach
  unfold benchmark
  refine (says_banner _).bind (Reaches.bind (reaches_timed
    (reaches_logged_of_eq hgenerate fun generateTime => ?_)))
  refine Reaches.bind (reaches_lift (Reaches.bind (reaches_logged_of_eq hdraw ?_)))
  refine Reaches.bind (reaches_timed (reaches_lift fun invertTime => ?_))
  rw [hroots]
  refine Reaches.bind (reaches_timed (reaches_lift fun applyTime => ?_))
  rw [Engine.mapM_apply_of_mapM_invert hroots]
  dsimp only [Continues, Except.map]
  rw [if_neg (not_not.mpr rfl)]
  refine Reaches.bind (reaches_timed (reaches_lift fun checkTime => ?_))
  rw [Engine.mapM_accepts_of_mem_unitSquares hp hq hmem]
  refine (says_say _).bind ((says_say _).bind ((says_say _).bind ((says_say _).bind ?_)))
  exact reaches_timesLines generateTime applyTime invertTime checkTime

/-- **The table of the benchmark.** If the factors are prime and no draw fails then a number of
operations that can divide gives the complete table, whatever the size of the key, the bytes of
the source and the readings of the clock are. Any other number ends the run behind the row for
key generation, with the fault of the division. A command line shows the same. -/
theorem benchmark_tabulates [Machine] (now : StateM γ Float) (clock : γ) :
    (∀ (bits : Argument) (count : Int) (s : Session) (w : Workspace),
      Drawn bits count s.workspace w →
        Tabulated bits count s w (benchmark now bits (.int count) s clock).1) ∧
    ∀ (args : List String) (options : Options) (count : Int) (source : Source) (w : Workspace),
      parse args = .ok options → options.benchmark = true → options.ops = .int count →
      Drawn options.bits count { source } w →
        ∃ out, Tabulated options.bits count { workspace := { source } } w out ∧
          (run now args source clock).1.ending = out.1.map (fun _ => 0) ∧
          (run now args source clock).1.output = String.join out.2.printed := by
  refine ⟨fun bits count s w h => reaches_benchmark h clock, ?_⟩
  intro args options count source w hparse hbenchmark hops h
  have hperform : perform now options = benchmark now options.bits (.int count) := by
    rw [perform, if_pos hbenchmark, hops]
  have hend : Tabulated options.bits count { workspace := { source } } w
      (perform now options { workspace := { source } } clock).1 := by
    rw [hperform]
    exact reaches_benchmark h clock
  refine ⟨_, hend, ?_⟩
  rw [run_eq_of_parse hparse]
  exact ⟨rfl, rfl⟩

theorem drawn_sixteen_bits : ∃ (key : PrivateKey) (w₁ : Workspace) (elements : List Int)
    (w : Workspace), key.p.toNat.Prime ∧ key.q.toNat.Prime ∧
      Engine.generate { bits := .int 16 } { source := enoughBytes } = (.ok key.engine, w₁) ∧
      (liftM (drawElements key.engine 1 []) : Logged (List Int)) w₁ = (.ok elements, w) := by
  have hrun : ((Engine.generate { bits := .int 16 } >>= fun e =>
      (liftM (drawElements e 1 []) : Logged (List Int)) >>= fun _ =>
        pure (e.key.private?.map fun key => (key.p, key.q))) { source := enoughBytes }).1 =
      .ok (some (199, 211)) := by
    decide +kernel
  obtain ⟨e, w₁, hgenerate, hrest⟩ := ok_of_bind hrun
  obtain ⟨elements, w, hdraw, hvalue⟩ := ok_of_bind hrest
  obtain ⟨key, rfl⟩ : ∃ key : PrivateKey, e = key.engine := by
    rcases e with ⟨⟨⟩ | key⟩
    · cases hvalue
    · exact ⟨key, rfl⟩
  have hfactors : some (key.p, key.q) = some (199, 211) := Except.ok.inj hvalue
  obtain ⟨hp, hq⟩ := Prod.mk.inj (Option.some.inj hfactors)
  refine ⟨key, w₁, elements, w, ?_, ?_, hgenerate, hdraw⟩
  · rw [hp]
    show Nat.Prime 199
    norm_num
  · rw [hq]
    show Nat.Prime 211
    norm_num

theorem benchmark_tabulates_sixteen_bits :
    ∃ w, Drawn (.int 16) 1 { source := enoughBytes } w ∧
      Tabulated (.int 16) 1 { workspace := { source := enoughBytes } } w
        (benchmark Clock.read (.int 16) (.int 1) { workspace := { source := enoughBytes } }
          ⟨[]⟩).1 ∧
      ∃ out, Tabulated (.int 16) 1 { workspace := { source := enoughBytes } } w out ∧
        (run Clock.read ["--benchmark", "--bits", "16", "--ops", "1"] enoughBytes ⟨[]⟩).1.ending =
          out.1.map (fun _ => 0) := by
  obtain ⟨key, w₁, elements, w, hp, hq, hgenerate, hdraw⟩ := drawn_sixteen_bits
  have hw : Drawn (.int 16) 1 { source := enoughBytes } w := .intro hp hq hgenerate hdraw
  have hparse : parse ["--benchmark", "--bits", "16", "--ops", "1"] =
      .ok { benchmark := true, bits := .int 16, ops := .int 1 } := by
    rfl
  obtain ⟨hbenchmark, hrun⟩ := benchmark_tabulates Clock.read ⟨[]⟩
  obtain ⟨out, hout, hending, -⟩ := hrun _ _ 1 enoughBytes w hparse rfl rfl hw
  exact ⟨w, hw, hbenchmark _ _ _ _ hw, out, hout, hending⟩

/-- No operations are asked for, none are timed, and the times are divided all the same. -/
theorem run_divides_by_zero :
    (∃ w, Drawn (.int 16) 0 { source := enoughBytes } w) ∧
      (run Clock.read ["--benchmark", "--bits", "16", "--ops", "0"] enoughBytes ⟨[]⟩).1.ending =
        .error .divisionByZero := by
  obtain ⟨key, w₁, -, -, hp, hq, hgenerate, -⟩ := drawn_sixteen_bits
  constructor
  · exact ⟨w₁, .intro hp hq hgenerate rfl⟩
  · decide +kernel

end Command

end Blum
