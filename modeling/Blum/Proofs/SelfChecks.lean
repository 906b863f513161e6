import Mathlib
import Blum.Command.Run
import Blum.Proofs.Boundary
import Blum.Proofs.Generation
import Blum.Proofs.HandleTables
import Blum.Proofs.Sampling
import Blum.Proofs.Sessions

/-!
# The checks of the demonstration and the benchmark

Both programs check what they show, and no source of bytes makes a check fail.
The factors of a fresh key may be composite, and then some random elements cannot
be inverted, which ends the program. An element that is inverted is the square of
its root, though, and the root is found again. Nothing else is checked.

The symbols are 1 for reasons of their own: the element is a square of a unit, and
the last residue is -1, which has symbol 1 because the modulus is 1 modulo 4.
-/

namespace Blum

/-! ## What is checked -/

namespace PrivateKey

theorem jacobiSym_n_sub_one (key : PrivateKey) : jacobiSym (key.n - 1) key.n.toNat = 1 := by
  rw [jacobiSym_sub_left key.n_pos key.n_mod_four, jacobiSym.one_left]

end PrivateKey

namespace Engine

open PrivateKey

variable {e : Engine} {x y : Int}

theorem apply_publicOnly (e : Engine) (x : Int) : e.publicOnly.apply x = e.apply x :=
  rfl

theorem check_publicOnly_of_invert (h : e.invert y = .ok x) :
    e.publicOnly.check y = .ok .unknown := by
  obtain ⟨key, rfl, hy, -⟩ := exists_key_of_invert h
  exact check_pub_of_mem_unitSquares ⟨pos_of_mem_squares hy, hy.2.1⟩
    (key.squares_subset_unitSquares hy)

theorem check_publicOnly_last (key : PrivateKey) :
    key.engine.publicOnly.check (key.n - 1) = .ok .unknown := by
  have hn := key.one_lt
  have hrange : 0 < key.n - 1 ∧ key.n - 1 < key.n := by omega
  have hcheck : check ⟨.pub key.toPublicKey⟩ (key.n - 1) = _ := check_pub_of_between hrange
  rw [jacobiSym_n_sub_one] at hcheck
  exact hcheck

theorem ensures_randomElement (e : Engine) :
    Stateful.Ensures e.randomElement (· ∈ unitSquares e.modulus) Fault.OfEngine :=
  (yields_randomElement e).ensures trivial

theorem mapM_apply_of_mapM_invert {ys xs : List Int} (h : ys.mapM e.invert = .ok xs) :
    xs.mapM e.apply = .ok ys := by
  induction ys generalizing xs with
  | nil => cases h; rfl
  | cons y ys ih =>
      rw [List.mapM_cons] at h
      cases hx : e.invert y with
      | error f => rw [hx] at h; cases h
      | ok x =>
          cases hxs : ys.mapM e.invert with
          | error f => rw [hx, hxs] at h; cases h
          | ok xs' =>
              rw [hx, hxs] at h
              obtain rfl := Except.ok.inj h
              rw [List.mapM_cons, apply_of_invert_ok hx, ih hxs]
              rfl

end Engine

/-! ## One engine in a table of handles -/

namespace HandleTable

open Bytes

def hosting (e : Engine) : HandleTable :=
  (count {}).put 1 e

theorem createPublic_self (e : Engine) (w : Workspace) :
    (createPublic (encodeNat e.modulus.toNat) (.int e.publicKey.r.toInt)
        (.int e.publicKey.s.toInt)).on {} w =
      (.ok (1, hosting e.publicOnly), { w with log := w.log.push (.registered 1) }) := by
  have hengine : Engine.ofRequest (.pub (operand (encodeNat e.modulus.toNat))
      (.int e.publicKey.r.toInt) (.int e.publicKey.s.toInt)) = .ok e.publicOnly := by
    rw [operand, decode_encodeNat, Int.toNat_of_nonneg e.modulus_pos.le]
    show ((PublicKey.ofInts e.publicKey.n e.publicKey.r.toInt e.publicKey.s.toInt).map _).bind _ = _
    rw [PrivateKey.ofInts_public]
    rfl
  rw [createPublic, hengine]
  rfl

/-- A new table serves the public part of an engine under the handle 1, and is empty again
after its release. -/
theorem serves_one {e : Engine} {x y : Int} (hx : e.invert y = .ok x) (w : Workspace) :
    (apply ((1 : Nat) : Int) (encodeNat x.toNat)).on (hosting e.publicOnly) w =
      (.ok (encodeNat y.toNat, hosting e.publicOnly), w) ∧
    (release ((1 : Nat) : Int)).on (hosting e.publicOnly) w =
      (.ok ((), (hosting e.publicOnly).remove 1),
        { w with log := w.log.push (.released 1) }) ∧
    ((hosting e.publicOnly).remove 1).size = 0 := by
  have hengine : (hosting e.publicOnly).engine? ((1 : Nat) : Int) = some e.publicOnly :=
    engine?_put _ _ _ _
  have happly : e.publicOnly.apply (decode (encodeNat x.toNat)) = .ok y := by
    rw [decode_encodeNat, Int.toNat_of_nonneg (Engine.invert_bounds hx).1,
      Engine.apply_publicOnly, Engine.apply_of_invert_ok hx]
  have hencode : Bytes.encode y = .ok (encodeNat y.toNat) := by
    obtain ⟨key, -, hy, -⟩ := Engine.exists_key_of_invert hx
    exact encode_of_nonneg hy.1
  refine ⟨?_, ?_, rfl⟩
  · rw [Hosted.on, apply, Stateful.bind_apply, engine_run, hengine]
    simp only [Option.elim_some, lift_bind_lift, happly]
    rw [show (Except.ok y >>= Bytes.encode) = Bytes.encode y from rfl, hencode]
    rfl
  · rw [Hosted.on, release_run, hengine]
    rfl

end HandleTable

namespace Command

open Stateful Script

variable {γ : Type} {now : StateM γ Float} {bits operations : Argument} {s : Session}

/-! ## Lines -/

def bannerLines (title : String) : List String :=
  ["".pushn '=' screenWidth, title, "".pushn '=' screenWidth]

theorem says_banner (title : String) : Says (banner title : Script (StateM γ) Unit)
    (bannerLines title) :=
  (says_say _).append ((says_say _).append (says_say _))

/-! ## The benchmark -/

theorem ensures_drawElements (e : Engine) (count : Nat) {drawn : List Int}
    (hdrawn : ∀ y ∈ drawn, y ∈ unitSquares e.modulus) :
    Ensures (drawElements e count drawn) (fun ys => ∀ y ∈ ys, y ∈ unitSquares e.modulus)
      Fault.OfEngine := by
  induction count generalizing drawn with
  | zero => exact ensures_pure fun y hy => hdrawn y (List.mem_reverse.mp hy)
  | succ count ih =>
      rw [drawElements]
      exact (Engine.ensures_randomElement e).bind fun y hy =>
        ih (List.forall_mem_cons.mpr ⟨hy, hdrawn⟩)

theorem failsAsEngine_perOperation (time : Float) (operations : Int) :
    FailsAsEngine (perOperation time operations) := by
  show FailsAsEngine (if (Float.ofInt operations).isInf then .error .tooLarge
    else if operations = 0 then .error .divisionByZero else .ok _)
  split_ifs
  · exact FailsAsEngine.error trivial
  · exact FailsAsEngine.error trivial
  · exact FailsAsEngine.ok _

theorem secures_timesLine (label : String) (time : Float) (operations : Int) :
    Secures (timesLine label time operations : Script (StateM γ) Unit) (fun _ => True)
      Fault.OfEngine :=
  (secures_lift (failsAsEngine_perOperation time operations)).bind fun _ _ =>
    (says_say _).secures

/-- **The benchmark finds its elements again.** -/
theorem secures_benchmark [Machine] :
    Secures (benchmark now bits operations) (fun _ => True) Fault.OfEngine := by
  unfold benchmark
  refine (says_banner _).secures.bind fun _ _ => ?_
  refine (secures_logged (Engine.ensures_generate _)).timed.bind fun ⟨e, generateTime⟩ _ => ?_
  refine (secures_lift (failsAsEngine_count operations)).bind fun count _ => ?_
  refine (secures_logged (Logged.ensures_ofDraw
    (ensures_drawElements e _ (List.forall_mem_nil _)))).bind fun elements _ => ?_
  refine (secures_lift (FailsAsEngine.mapM e.failsAsEngine_invert elements)).timed.bind
    fun ⟨roots, invertTime⟩ hroots => ?_
  refine (secures_lift (FailsAsEngine.mapM e.failsAsEngine_apply roots)).timed.bind
    fun ⟨images, applyTime⟩ himages => ?_
  have hfound : images = elements :=
    Except.ok.inj (himages.symm.trans (Engine.mapM_apply_of_mapM_invert hroots))
  dsimp only
  rw [if_neg (not_not.mpr hfound)]
  refine (secures_lift (FailsAsEngine.mapM e.failsAsEngine_accepts elements)).timed.bind
    fun ⟨_, checkTime⟩ _ => ?_
  refine (says_say _).secures.bind fun _ _ => (says_say _).secures.bind fun _ _ =>
    (says_say _).secures.bind fun _ _ => (says_say _).secures.bind fun _ _ => ?_
  refine (secures_timesLine _ _ _).bind fun _ _ => (secures_timesLine _ _ _).bind fun _ _ => ?_
  exact secures_timesLine _ _ _

/-! ## The demonstration

What it prints, line by line. The results of its checks are fixed words here. -/

def headingLines (title : String) : List String :=
  ["", Text.center screenWidth title '─']

theorem says_heading (title : String) :
    Says (heading title : Script (StateM γ) Unit) (headingLines title) :=
  (says_say _).append (says_say _)

def labelled (label value : String) : String :=
  "  " ++ Text.padRight 16 label ++ Text.padLeft 12 value

theorem says_row (label value : String) :
    Says (row label value : Script (StateM γ) Unit) [labelled label value] :=
  says_say _

def openingLines : List String :=
  bannerLines "Rabin Trapdoor Permutation - Demo" ++ headingLines "Key Generation"

def keyLines (e : Engine) (time : Float) : List String :=
  [labelled "Modulus bits:" (toString (bitLength e.modulus.toNat)),
    labelled "Selectors:" s!"r={e.publicKey.r.toInt}, s={e.publicKey.s.toInt}",
    labelled "Time:" (Text.duration time)]

def mapLines (y x : Int) : List String :=
  [s!"  y (residue):    {hexStart y}", s!"  x = invert(y):  {hexStart x}",
    labelled "apply(x) == y:" "True", "  invert(apply(x)) == x: " ++ Text.padLeft 5 "True"]

def publicLines : List String :=
  [labelled "apply agrees:" "True", labelled "check(y):" "dont_know",
    labelled "check(n - 1):" "dont_know"]

def handleLines (size : Nat) : List String :=
  [labelled "Handle id:" "1", labelled "Output bytes:" (toString size),
    labelled "Live handles:" "0"]

example : labelled "check(n - 1):" "dont_know" = "  check(n - 1):      dont_know" := by
  decide

section Run

variable {w : Workspace} {lines : List String}

theorem reaches_showKey [Machine] {Q : Except Fault Engine × Session → Prop}
    (hfail : ∀ f w', Engine.generate { bits } w = (.error f, w') →
      Q (.error f, s.after w' (lines ++ headingLines "Key Generation")))
    (hok : ∀ e w', Engine.generate { bits } w = (.ok e, w') → ∀ time,
      Q (.ok e, s.after w' (lines ++ headingLines "Key Generation" ++ keyLines e time))) :
    Reaches (showKey now bits) (s.after w lines) Q := by
  refine (says_heading _).bind ?_
  rcases h : Engine.generate { bits } w with ⟨f | e, w'⟩
  · exact Reaches.bind (reaches_timed (reaches_logged_of_eq h fun time => hfail f w' h))
  · refine Reaches.bind (reaches_timed (reaches_logged_of_eq h fun time => ?_))
    refine (says_row _ _).bind ((says_row _ _).bind ((says_row _ _).bind (reaches_pure ?_)))
    simpa [keyLines] using hok e w' h time

theorem reaches_showMaps {e : Engine} {Q : Except Fault (Int × Int) × Session → Prop}
    (hdraw : ∀ f w', (liftM e.randomElement : Logged Int) w = (.error f, w') →
      Q (.error f, s.after w' (lines ++ headingLines "Apply / Invert")))
    (hroot : ∀ y w' f, (liftM e.randomElement : Logged Int) w = (.ok y, w') →
      e.invert y = .error f →
      Q (.error f, s.after w' (lines ++ headingLines "Apply / Invert")))
    (hok : ∀ y w' x, (liftM e.randomElement : Logged Int) w = (.ok y, w') →
      e.invert y = .ok x →
      Q (.ok (x, y), s.after w' (lines ++ headingLines "Apply / Invert" ++ mapLines y x))) :
    Reaches (showMaps e : Script (StateM γ) (Int × Int)) (s.after w lines) Q := by
  refine (says_heading _).bind ?_
  rcases hy : (liftM e.randomElement : Logged Int) w with ⟨f | y, w'⟩
  · exact Reaches.bind (reaches_logged_of_eq hy (hdraw f w' hy))
  refine Reaches.bind (reaches_logged_of_eq hy ?_)
  rcases hx : e.invert y with f | x
  · exact Reaches.bind (reaches_lift (hx ▸ hroot y w' f hy hx))
  refine Reaches.bind (reaches_lift ?_)
  rw [hx]
  refine (says_say _).bind ((says_say _).bind (Reaches.bind (reaches_lift ?_)))
  rw [Engine.apply_of_invert_ok hx]
  refine (says_row _ _).bind (Reaches.bind (reaches_lift ?_))
  rw [Engine.applyThenInvert_of_invert_ok hx]
  refine (says_say _).bind (reaches_pure ?_)
  simpa [mapLines, truthWord] using hok y w' x hy hx

theorem reaches_showPublic {key : PrivateKey} {x y : Int}
    {Q : Except Fault Unit × Session → Prop} (hx : key.engine.invert y = .ok x)
    (hok : Q (.ok (), s.after w (lines ++ headingLines "Public-Only Engine" ++ publicLines))) :
    Reaches (showPublic key.engine x y : Script (StateM γ) Unit) (s.after w lines) Q := by
  refine (says_heading _).bind (Reaches.bind (reaches_lift ?_))
  rw [Engine.apply_publicOnly, Engine.apply_of_invert_ok hx]
  refine (says_row _ _).bind (Reaches.bind (reaches_lift ?_))
  rw [Engine.check_publicOnly_of_invert hx]
  refine (says_row _ _).bind (Reaches.bind (reaches_lift ?_))
  have hlast : key.engine.publicOnly.check (key.engine.modulus - 1) = .ok .unknown :=
    Engine.check_publicOnly_last key
  rw [hlast]
  refine (says_row _ _).reaches ?_
  simpa [publicLines, truthWord, Validity.word] using hok

theorem reaches_showHandle {e : Engine} {x y : Int} {Q : Except Fault Unit × Session → Prop}
    (hx : e.invert y = .ok x)
    (hok : Q (.ok (), s.after { w with log := (w.log.push (.registered 1)).push (.released 1) }
      (lines ++ headingLines "Handle Boundary" ++ handleLines (Bytes.encodeNat y.toNat).length))) :
    Reaches (showHandle e x : Script (StateM γ) Unit) (s.after w lines) Q := by
  refine (says_heading _).bind (Reaches.bind (reaches_lift ?_))
  rw [Bytes.encode_of_nonneg e.modulus_pos.le]
  refine Reaches.bind (reaches_logged_of_eq (HandleTable.createPublic_self e w) ?_)
  refine Reaches.bind (reaches_lift ?_)
  rw [Bytes.encode_of_nonneg (Engine.invert_bounds hx).1]
  refine Reaches.bind (reaches_logged_of_eq (HandleTable.serves_one hx _).1 ?_)
  refine (says_row _ _).bind ((says_row _ _).bind ?_)
  refine Reaches.bind (reaches_logged_of_eq (HandleTable.serves_one hx _).2.1 ?_)
  refine (says_row _ _).reaches ?_
  rw [(HandleTable.serves_one hx w).2.2]
  have hid : Nat.repr 1 = "1" := by decide
  have hlive : Nat.repr 0 = "0" := by decide
  simpa [handleLines, hid, hlive] using hok

end Run

/-- How the demonstration can end. It runs out of bytes, or finds no key or no root, or
it gets to its end, and then all its checks have passed. -/
inductive Demonstrated [Machine] (bits : Argument) (s : Session) :
    Except Fault Unit × Session → Prop
  | noKey {f : Fault} {w : Workspace}
      (generate : Engine.generate { bits } s.workspace = (.error f, w)) :
      Demonstrated bits s (.error f, s.after w openingLines)
  | noElement {e : Engine} {f : Fault} {w w' : Workspace} (time : Float)
      (generate : Engine.generate { bits } s.workspace = (.ok e, w))
      (draw : (liftM e.randomElement : Logged Int) w = (.error f, w')) :
      Demonstrated bits s
        (.error f, s.after w' (openingLines ++ keyLines e time ++ headingLines "Apply / Invert"))
  | noRoot {e : Engine} {y : Int} {f : Fault} {w w' : Workspace} (time : Float)
      (generate : Engine.generate { bits } s.workspace = (.ok e, w))
      (draw : (liftM e.randomElement : Logged Int) w = (.ok y, w'))
      (invert : e.invert y = .error f) :
      Demonstrated bits s
        (.error f, s.after w' (openingLines ++ keyLines e time ++ headingLines "Apply / Invert"))
  | passed {e : Engine} {y x : Int} {w w' : Workspace} {size : Nat} (time : Float)
      (generate : Engine.generate { bits } s.workspace = (.ok e, w))
      (draw : (liftM e.randomElement : Logged Int) w = (.ok y, w'))
      (invert : e.invert y = .ok x)
      (shortest : ∀ k, y < 256 ^ k ↔ size ≤ k) :
      Demonstrated bits s
        (.ok (), s.after { w' with log := (w'.log.push (.registered 1)).push (.released 1) }
          (openingLines ++ keyLines e time ++ headingLines "Apply / Invert" ++ mapLines y x ++
            headingLines "Public-Only Engine" ++ publicLines ++
            headingLines "Handle Boundary" ++ handleLines size))

theorem lt_pow_iff_length_encodeNat_le {y : Int} (hy : 0 ≤ y) (k : Nat) :
    y < 256 ^ k ↔ (Bytes.encodeNat y.toNat).length ≤ k := by
  rw [Bytes.length_encodeNat_le_iff, Int.toNat_lt hy]
  push_cast
  rfl

theorem reaches_demo [Machine] : Reaches (demo now bits) s (Demonstrated bits s) := by
  suffices h : Reaches (demo now bits) (s.after s.workspace []) (Demonstrated bits s) by
    rwa [s.after_nil] at h
  unfold demo
  refine (says_banner _).bind (Reaches.bind (reaches_showKey ?_ ?_))
  · intro f w hkey
    exact .noKey hkey
  · intro e w hkey time
    refine Reaches.bind (reaches_showMaps ?_ ?_ ?_)
    · intro f w' hdraw
      exact .noElement time hkey hdraw
    · intro y w' f hdraw hroot
      exact .noRoot time hkey hdraw hroot
    · intro y w' x hdraw hx
      obtain ⟨key, rfl, hy, -⟩ := Engine.exists_key_of_invert hx
      refine Reaches.bind (reaches_showPublic hx (reaches_showHandle hx ?_))
      exact .passed time hkey hdraw hx (lt_pow_iff_length_encodeNat_le hy.1)

/-! ## The program -/

theorem Demonstrated.failsAsEngine [Machine] {out : Except Fault Unit × Session}
    (h : Demonstrated bits s out) : FailsAsEngine out.1 := by
  cases h with
  | noKey hkey => exact FailsAsEngine.error ((Engine.ensures_generate _).of_error hkey)
  | @noElement e f w w' time hkey hdraw =>
      have hensures := Logged.ensures_ofDraw (Engine.ensures_randomElement e)
      exact FailsAsEngine.error (hensures.of_error hdraw)
  | noRoot time hkey hdraw hroot =>
      exact FailsAsEngine.error (Engine.failsAsEngine_invert _ _ _ hroot)
  | passed => exact FailsAsEngine.ok _

theorem Secures.ne_roundTrip {α : Type} {P : α → Prop} {d : Script (StateM γ) α}
    (h : Secures d P Fault.OfEngine) (s : Session) (clock : γ) :
    (d s clock).1.1 ≠ .error .roundTrip := by
  have hfault := h s clock
  generalize (d s clock).1 = out at hfault ⊢
  obtain ⟨r, s'⟩ := out
  rintro rfl
  exact hfault

theorem secures_perform [Machine] (options : Options) :
    Secures (perform now options) (fun _ => True) Fault.OfEngine := by
  unfold perform
  split
  · exact secures_benchmark
  split
  · intro s
    refine reaches_demo.mono fun out h => ?_
    rcases hout : out.1 with f | a
    · exact h.failsAsEngine f hout
    · trivial
  · intro s clock
    trivial

/-- What a command line shows is what is left of the session that it asks for. -/
theorem run_eq_of_parse [Machine] {args : List String} {options : Options}
    (hparse : parse args = .ok options) (source : Source) (clock : γ) :
    (run now args source clock).1 =
      let out := (perform now options { workspace := { source } } clock).1
      { ending := out.1.map fun _ => 0
        output := String.join out.2.printed
        errors := logLines options.verbose out.2.workspace.log.toList
        source := out.2.workspace.source } := by
  unfold run
  rw [hparse]
  rfl

theorem run_of_parse [Machine] {args : List String} {options : Options}
    (hparse : parse args = .ok options) (source : Source) (clock : γ) :
    (run now args source clock).1.ending =
      (perform now options { workspace := { source } } clock).1.1.map fun _ => 0 :=
  congrArg Report.ending (run_eq_of_parse hparse source clock)

/-- **The checks pass.** Whatever bytes the source yields, whatever the clock shows and
whatever size and number of operations are asked for, the benchmark finds its elements
again, and the demonstration shows no check that failed. So no command line ends with a
failed check. -/
theorem self_checks_pass [Machine] (now : StateM γ Float) (clock : γ) :
    (∀ (bits operations : Argument) (s : Session),
      (benchmark now bits operations s clock).1.1 ≠ .error .roundTrip) ∧
    (∀ (bits : Argument) (s : Session), Demonstrated bits s (demo now bits s clock).1) ∧
    ∀ (args : List String) (source : Source),
      (run now args source clock).1.ending ≠ .error .roundTrip := by
  refine ⟨fun bits operations s => secures_benchmark.ne_roundTrip s clock,
    fun bits s => reaches_demo clock, fun args source => ?_⟩
  cases hparse : parse args with
  | error stop =>
      unfold run
      rw [hparse]
      cases stop with
      | help => nofun
      | misuse why => nofun
  | ok options =>
      rw [run_of_parse hparse]
      intro heq
      cases hout : (perform now options { workspace := { source } } clock).1.1 with
      | ok a =>
          rw [hout] at heq
          cases heq
      | error f =>
          rw [hout] at heq
          cases heq
          exact (secures_perform options).ne_roundTrip _ clock hout

def enoughBytes : Source :=
  { Generate.twoPrimes with byteLimit := 100, callLimit := 100 }

example : (demo Clock.read (.int 16) { workspace := { source := enoughBytes } } ⟨[]⟩).1.1 =
    .ok () := by
  decide +kernel

end Command

end Blum
