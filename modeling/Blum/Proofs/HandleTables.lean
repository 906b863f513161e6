import Mathlib
import Blum.HandleTable
import Blum.Proofs.DigitLimits
import Blum.Proofs.Histories

/-!
# The table of handles

A table and its counter are worked on in place. A registry is what they amount to:
`Represents t g` says that the table `t` knows the engines of `g` and counts as `g`
does. One request keeps this, and it leaves the table alone if it fails. The handles
of the table are different from each other, which is why a release makes the table
shorter by one.

A table answers as its registry does, except for faults that cite a number with too
many digits. Its history therefore determines what is behind its handles, and several
tables serve requests without noticing each other.
-/

namespace Blum

namespace HandleTable

variable {t : HandleTable} {h h₀ : Int} {e : Engine}

/-! ## Entries -/

theorem lookup_cons (h h₀ : Int) (e : Engine) (entries : List (Int × Engine)) :
    ((h₀, e) :: entries).lookup h = if h = h₀ then some e else entries.lookup h := by
  by_cases heq : h = h₀
  · rw [heq, List.lookup_cons_self, if_pos rfl]
  · rw [List.lookup_cons, beq_false_of_ne heq, if_neg heq]

theorem lookup_filter (entries : List (Int × Engine)) (h h₀ : Int) :
    (entries.filter fun entry => entry.1 ≠ h₀).lookup h =
      if h = h₀ then none else entries.lookup h := by
  induction entries with
  | nil => simp
  | cons entry entries ih =>
      obtain ⟨h₁, e⟩ := entry
      by_cases hkept : h₁ = h₀
      · rw [List.filter_cons_of_neg (by simpa using hkept), ih, lookup_cons]
        split_ifs with h₂ h₃
        · rfl
        · omega
        · rfl
      · rw [List.filter_cons_of_pos (by simpa using hkept), lookup_cons, lookup_cons, ih]
        split_ifs with h₂ h₃
        · omega
        · rfl
        · rfl
        · rfl

theorem engine?_remove (t : HandleTable) (h h₀ : Int) :
    (t.remove h₀).engine? h = if h = h₀ then none else t.engine? h :=
  lookup_filter t.entries h h₀

theorem engine?_put (t : HandleTable) (h h₀ : Int) (e : Engine) :
    (t.put h₀ e).engine? h = if h = h₀ then some e else t.engine? h := by
  refine (lookup_cons h h₀ e _).trans ?_
  split_ifs with heq
  · rfl
  · exact (engine?_remove t h h₀).trans (if_neg heq)

theorem engine?_eq_none_iff : t.engine? h = none ↔ h ∉ t.entries.map Prod.fst := by
  rw [engine?, List.lookup_eq_none_iff, List.mem_map]
  constructor
  · rintro hall ⟨entry, hmem, rfl⟩
    simpa using hall entry hmem
  · intro hnot entry hmem
    refine bne_iff_ne.mpr ?_
    rintro rfl
    exact hnot ⟨entry, hmem, rfl⟩

theorem remove_of_none (hnone : t.engine? h = none) : t.remove h = t := by
  have hall : ∀ entry ∈ t.entries, decide (entry.1 ≠ h) = true := by
    intro entry hmem
    refine decide_eq_true ?_
    rintro rfl
    exact engine?_eq_none_iff.mp hnone (List.mem_map_of_mem hmem)
  rw [remove, List.filter_eq_self.mpr hall]

theorem size_remove (hnodup : (t.entries.map Prod.fst).Nodup) (he : t.engine? h = some e) :
    (t.remove h).size + 1 = t.size := by
  have hmem : h ∈ t.entries.map Prod.fst := by
    by_contra hnot
    cases (engine?_eq_none_iff.mpr hnot).symm.trans he
  have hone := List.count_eq_one_of_mem hnodup hmem
  have hsplit := List.length_eq_countP_add_countP (fun entry : Int × Engine => entry.1 ≠ h)
    (l := t.entries)
  rw [List.count, List.countP_map] at hone
  rw [size, remove, ← List.countP_eq_length_filter, size, hsplit]
  congr 1
  rw [← hone]
  refine List.countP_congr fun entry _ => ?_
  simp

/-! ## The registry of a table -/

/-- The table knows the engines of the registry under their handles, each of them once,
and the next handle is the one after its slots. -/
structure Represents (t : HandleTable) (g : Registry) : Prop where
  next_eq : t.next = g.slots.length + 1
  engine?_eq : ∀ h, t.engine? h = g.engine? h
  size_eq : t.size = g.size
  nodup : (t.entries.map Prod.fst).Nodup

theorem represents_empty : Represents {} {} where
  next_eq := rfl
  engine?_eq h := by
    symm
    refine Option.eq_none_iff_forall_ne_some.mpr fun e he => ?_
    cases (Registry.engine?_eq_some_iff.mp he).2
  size_eq := rfl
  nodup := List.nodup_nil

namespace Represents

variable {g : Registry} (rep : Represents t g)
include rep

theorem contains_eq (h : Int) : t.contains h = g.contains h :=
  congrArg Option.isSome (rep.engine?_eq h)

theorem engine?_next : t.engine? t.next = none := by
  rw [rep.engine?_eq]
  refine Registry.engine?_of_length_lt ?_
  rw [rep.next_eq]
  omega

theorem put (e : Engine) : Represents (t.count.put t.next e) (g.insert e) where
  next_eq := by
    rw [Registry.length_insert, ← rep.next_eq]
    rfl
  engine?_eq h := by
    rw [engine?_put]
    ext e'
    rw [Registry.engine?_insert, ← rep.engine?_eq, rep.next_eq]
    have hnext := rep.engine?_next
    rw [rep.next_eq] at hnext
    push_cast at hnext ⊢
    by_cases heq : h = g.slots.length + 1
    · rw [if_pos heq, heq, hnext]
      simp
    · rw [if_neg heq]
      show t.engine? h = some e' ↔ _
      simp [heq]
  size_eq := by
    have hsame : t.count.remove t.next = t.count := remove_of_none rep.engine?_next
    rw [Registry.size_insert, ← rep.size_eq, size, HandleTable.put, hsame]
    rfl
  nodup := by
    have hsame : t.count.remove t.next = t.count := remove_of_none rep.engine?_next
    rw [HandleTable.put, hsame]
    exact List.nodup_cons.mpr ⟨engine?_eq_none_iff.mp rep.engine?_next, rep.nodup⟩

theorem remove (he : t.engine? h = some e) : Represents (t.remove h) (g.erase h) where
  next_eq := by
    rw [Registry.length_erase, ← rep.next_eq]
    rfl
  engine?_eq h' := by
    rw [engine?_remove]
    ext e'
    rw [Registry.engine?_erase, ← rep.engine?_eq]
    split_ifs with heq
    · simp [heq]
    · simp [heq]
  size_eq := by
    have hcontains : g.contains h :=
      Registry.contains_iff.mpr ⟨e, (rep.engine?_eq h).symm.trans he⟩
    have htable := size_remove rep.nodup he
    have hregistry := Registry.size_erase hcontains
    have := rep.size_eq
    omega
  nodup := rep.nodup.sublist (List.filter_sublist.map _)

end Represents

/-! ## One request -/

theorem engine_run (h : Int) (t : HandleTable) (w : Workspace) :
    engine h ⟨t, w⟩ = ((t.engine? h).elim (.error (.unknownHandle h)) .ok, ⟨t, w⟩) := by
  simp only [engine, Stateful.bind_apply, Hosted.table]
  cases t.engine? h with
  | some e => rfl
  | none => rfl

theorem release_run (h : Int) (t : HandleTable) (w : Workspace) :
    release h ⟨t, w⟩ = (t.engine? h).elim (.error (.unknownHandle h), ⟨t.remove h, w⟩)
      fun _ => (.ok (), ⟨t.remove h, { w with log := w.log.push (.released h.toNat) }⟩) := by
  simp only [release, Stateful.bind_apply, Hosted.table, Hosted.change]
  cases t.engine? h with
  | some e => rfl
  | none => rfl

/-- What a request comes to for a table and for the registry that it represents. -/
inductive Matches (t : HandleTable) :
    Except Fault Answer × Host → Except Fault (Answer × Registry) × Workspace → Prop
  | ok {a : Answer} {t' : HandleTable} {g' : Registry} {w : Workspace} (rep : Represents t' g') :
      Matches t (.ok a, ⟨t', w⟩) (.ok (a, g'), w)
  | error {f : Fault} {w : Workspace} : Matches t (.error f, ⟨t, w⟩) (.error f, w)

section Matches

variable {g : Registry} (rep : Represents t g) {w : Workspace}
include rep

theorem matches_create {work : Hosted Engine} {work' : Logged Engine}
    (hwork : work ⟨t, w⟩ = ((work' w).1, ⟨t, (work' w).2⟩)) :
    Matches t ((Answer.handle <$> (work >>= register)) ⟨t, w⟩)
      (((work' >>= g.register) >>= fun made => pure (.handle made.1, made.2)) w) := by
  show Matches t (((work >>= register) >>= fun id => pure (Answer.handle id)) ⟨t, w⟩) _
  simp only [Stateful.bind_apply, hwork]
  rcases work' w with ⟨f | e, w'⟩
  · exact .error
  · show Matches t (.ok (.handle t.next), ⟨t.count.put t.next e, _⟩)
      (.ok (.handle (g.slots.length + 1), g.insert e), _)
    rw [rep.next_eq, ← rep.next_eq]
    exact .ok (rep.put e)

theorem matches_read {α : Type} {ask : Engine → Hosted α} {ask' : Engine → Except Fault α}
    (hask : ∀ e host, ask e host = (ask' e, host)) (answer : α → Answer) :
    Matches t ((answer <$> (engine h >>= ask)) ⟨t, w⟩)
      (((liftM (g.engine h >>= ask') : Logged α) >>= fun a => pure (answer a, g)) w) := by
  show Matches t (((engine h >>= ask) >>= fun a => pure (answer a)) ⟨t, w⟩) _
  simp only [Stateful.bind_apply, Stateful.lift_apply, engine_run, rep.engine?_eq]
  cases he : g.engine? h with
  | none =>
      rw [Registry.engine_of_not_contains (by simp [Registry.contains, he])]
      exact .error
  | some e =>
      rw [Registry.engine_eq_ok_iff.mpr he]
      have hbind : (Except.ok e >>= ask') = ask' e := rfl
      simp only [Option.elim_some, hask, hbind]
      cases ask' e with
      | ok a => exact .ok rep
      | error f => exact .error

theorem matches_release (h : Int) (w : Workspace) :
    Matches t ((release h >>= fun _ => pure .released : Hosted Answer) ⟨t, w⟩)
      ((g.release h >>= fun g' => pure (.released, g')) w) := by
  rw [Stateful.bind_apply, Stateful.bind_apply, release_run]
  cases he : t.engine? h with
  | none =>
      have hunknown : g.engine h = .error (.unknownHandle h) := by
        refine Registry.engine_of_not_contains ?_
        simp [Registry.contains, ← rep.engine?_eq, he]
      rw [remove_of_none he, Registry.release, hunknown]
      exact .error
  | some e =>
      rw [Registry.release_of_contains (Registry.contains_iff.mpr
        ⟨e, (rep.engine?_eq h).symm.trans he⟩)]
      exact .ok (rep.remove he)

end Matches

theorem lift_bind_lift {α β : Type} (r : Except Fault α) (k : α → Except Fault β) (host : Host) :
    ((liftM r : Hosted α) >>= fun a => liftM (k a)) host = (r >>= k, host) := by
  rw [Stateful.bind_apply, Stateful.lift_apply]
  cases r with
  | ok a => exact Stateful.lift_apply (k a) host
  | error f => rfl

/-! A read leaves the table, its counter and the log alone. -/

def Keeps {α : Type} (work : Hosted α) : Prop :=
  ∀ host, (work host).2 = host

section Keeps

variable {α β : Type}

theorem keeps_pure (a : α) : Keeps (pure a : Hosted α) :=
  fun _ => rfl

theorem keeps_lift (result : Except Fault α) : Keeps (liftM result : Hosted α) := by
  intro host
  rw [Stateful.lift_apply]

theorem keeps_engine (h : Int) : Keeps (engine h) :=
  fun ⟨t, w⟩ => by rw [engine_run]

theorem Keeps.bind {work : Hosted α} {rest : α → Hosted β} (hwork : Keeps work)
    (hrest : ∀ a, Keeps (rest a)) : Keeps (work >>= rest) := by
  intro host
  have hhost := hwork host
  rw [Stateful.bind_apply]
  generalize work host = out at hhost
  obtain ⟨f | a, host'⟩ := out
  · exact hhost
  · exact (hrest a host').trans hhost

theorem keeps_ask (h : Int) {ask : Engine → Hosted α} (hask : ∀ e, Keeps (ask e))
    (answer : α → Answer) : Keeps (answer <$> (engine h >>= ask)) :=
  ((keeps_engine h).bind hask).bind fun a => keeps_pure (answer a)

end Keeps

theorem keeps_perform [Machine] {r : Request} (hr : r.isRead) : Keeps (perform r) := by
  cases r with
  | apply h x => exact keeps_ask h (fun e => (keeps_lift _).bind fun z => keeps_lift _) _
  | invert h y => exact keeps_ask h (fun e => (keeps_lift _).bind fun z => keeps_lift _) _
  | accepts h x => exact keeps_ask h (fun e => keeps_lift _) _
  | modulus h => exact keeps_ask h (fun e => keeps_lift _) _
  | engine h => exact (keeps_engine h).bind fun e => keeps_pure _
  | contains h => exact fun _ => rfl
  | _ => cases hr

open Registry

section Serve

variable [Machine] {g : Registry} {r : Request}

/-- **One request.** The table becomes what the registry becomes, and it is left alone
by a request that fails. -/
theorem perform_matches (rep : Represents t g) (r : Request) (w : Workspace) :
    Matches t (perform r ⟨t, w⟩) (g.perform r w) := by
  cases r with
  | createPrivate n r s p q u => exact matches_create rep (Stateful.lift_apply _ _)
  | createPublic n r s => exact matches_create rep (Stateful.lift_apply _ _)
  | createRandom bits source => exact matches_create rep rfl
  | apply h x => exact matches_read rep (fun e => lift_bind_lift _ _) _
  | invert h y => exact matches_read rep (fun e => lift_bind_lift _ _) _
  | accepts h x => exact matches_read rep (fun e => Stateful.lift_apply _) _
  | modulus h => exact matches_read rep (fun e => Stateful.lift_apply _) _
  | engine h =>
      have hread : Matches t ((Answer.engine <$> (engine h >>= pure)) ⟨t, w⟩)
          (((liftM (g.engine h >>= pure) : Logged Engine) >>= fun e => pure (.engine e, g)) w) :=
        matches_read rep (fun _ _ => rfl) _
      rwa [bind_pure, bind_pure] at hread
  | release h => exact matches_release rep h w
  | contains h =>
      show Matches t (.ok (.truth (t.contains h)), ⟨t, w⟩) (.ok (.truth (g.contains h), g), w)
      rw [rep.contains_eq]
      exact .ok rep

/-- **A table serves as its registry does**, under the limit on digits. -/
theorem serve_represents (rep : Represents t g) (r : Request) :
    (t.serve r).1 =
        ⟨Machine.digits.raised (g.serve r).1.result, (g.serve r).1.log⟩ ∧
      Represents (t.serve r).2 (g.serve r).2 := by
  have hmatches := perform_matches rep r { source := r.source }
  unfold serve Registry.serve
  generalize perform r ⟨t, { source := r.source }⟩ = out at hmatches
  generalize g.perform r { source := r.source } = out' at hmatches
  cases hmatches with
  | ok rep' => exact ⟨rfl, rep'⟩
  | error => exact ⟨rfl, rep⟩

/-- **A request that fails leaves the table as it was**, its counter included. -/
theorem serve_of_error (rep : Represents t g) {f : Fault}
    (hf : (t.serve r).1.result = .error f) : (t.serve r).2 = t := by
  have hmatches := perform_matches rep r { source := r.source }
  unfold serve at hf ⊢
  generalize perform r ⟨t, { source := r.source }⟩ = out at hmatches hf
  generalize g.perform r { source := r.source } = out' at hmatches
  cases hmatches with
  | ok rep' => cases hf
  | error => rfl

theorem serve_of_isRead (hr : r.isRead) (t : HandleTable) : (t.serve r).2 = t :=
  congrArg Host.table (keeps_perform hr _)

/-- Unknown handles are told from the others by every request about one of them. -/
theorem serve_of_not_contains (rep : Represents t g) (hr : r.handle? = some h)
    (hc : ¬ t.contains h) :
    t.serve r = (⟨.error (Fault.raised Machine.digits (.unknownHandle h)), []⟩, t) := by
  rw [rep.contains_eq] at hc
  have houtcome := (serve_represents rep r).1
  rw [Registry.serve_of_not_contains hr hc] at houtcome
  exact Prod.ext houtcome (serve_of_error rep (congrArg Outcome.result houtcome))

theorem serve_of_build (rep : Represents t g) {built : Except Fault Engine}
    (hb : r.build? = some built) : (t.serve r).1.result =
      Machine.digits.raised (built.map fun _ => .handle t.next) := by
  rw [(serve_represents rep r).1, (Registry.serve_of_build hb).1, rep.next_eq]

/-! ## Many requests -/

def serveAll (t : HandleTable) : List Request → List Event × HandleTable
  | [] => ([], t)
  | r :: rs =>
    let rest := (t.serve r).2.serveAll rs
    (⟨r, (t.serve r).1.result⟩ :: rest.1, rest.2)

theorem serveAll_append_singleton (t : HandleTable) (rs : List Request) (r : Request) :
    t.serveAll (rs ++ [r]) =
      ((t.serveAll rs).1 ++ [⟨r, ((t.serveAll rs).2.serve r).1.result⟩],
        ((t.serveAll rs).2.serve r).2) := by
  induction rs generalizing t with
  | nil => rfl
  | cons r' rs ih => simp only [List.cons_append, serveAll, ih]

/-- **A table runs as its registry does.** -/
theorem represents_serveAll (rep : Represents t g) (rs : List Request) :
    (t.serveAll rs).1 = (g.serveAll rs).1.map (fun event =>
        ⟨event.request, Machine.digits.raised event.result⟩) ∧
      Represents (t.serveAll rs).2 (g.serveAll rs).2 := by
  induction rs generalizing t g with
  | nil => exact ⟨rfl, rep⟩
  | cons r rs ih =>
      obtain ⟨houtcome, hrep⟩ := serve_represents rep r
      obtain ⟨hhistory, hlast⟩ := ih hrep
      refine ⟨?_, hlast⟩
      rw [serveAll, Registry.serveAll, List.map_cons, ← hhistory, houtcome]

/-- **The history of a table tells what its registry is.** -/
theorem tracks_serveAll (rs : List Request) :
    Tracks (serveAll {} rs).1 (Registry.serveAll {} rs).2 := by
  induction rs using List.reverseRecOn with
  | nil => exact tracks_nil
  | append_singleton rs r ih =>
      rw [serveAll_append_singleton, Registry.serveAll_append_singleton]
      have hrep := (represents_serveAll represents_empty rs).2
      rw [(serve_represents hrep r).1]
      exact ih.step_raised Machine.digits (served_serve _ r)

/-! ## What a table owes to its history -/

/-- The table answers as its history says. -/
structure Follows (t : HandleTable) (history : List Event) : Prop where
  /-- Creations answer 1, 2, 3 and so on. -/
  creations_eq : creations history = List.range' 1 (creations history).length
  next_eq : t.next = (creations history).length + 1
  /-- A handle is known from its creation until its release. -/
  contains_iff : ∀ h, t.contains h ↔ Live history h
  /-- Behind it is the engine that the creation built. -/
  engine_iff : ∀ h e, (t.serve (.engine h)).1.result = .ok (.engine e) ↔ Holds history h e
  size_add : t.size + (releases history).length = (creations history).length
  /-- A released handle stays unknown, whatever follows. -/
  not_contains_of_released : ∀ h ∈ releases history, ¬ t.contains h
  /-- The next creation fails as the building does, or answers the next handle. -/
  create : ∀ r built, r.build? = some built → (t.serve r).1.result =
    Machine.digits.raised (built.map fun _ => .handle ((creations history).length + 1))
  /-- A request about an unknown handle fails, and cites the handle if it can. -/
  unknown : ∀ r h, r.handle? = some h → ¬ t.contains h → Machine.digits.Admits h →
    t.serve r = (⟨.error (.unknownHandle h), []⟩, t)
  unknown_tooLong : ∀ r h, r.handle? = some h → ¬ t.contains h → ¬ Machine.digits.Admits h →
    t.serve r = (⟨.error .digitLimit, []⟩, t)
  /-- Failures and reads change nothing. -/
  unchanged : ∀ r, r.isRead ∨ (∃ f, (t.serve r).1.result = .error f) → (t.serve r).2 = t

theorem serve_engine_iff (rep : Represents t g) :
    (t.serve (.engine h)).1.result = .ok (.engine e) ↔ g.engine? h = some e := by
  have hperform : g.serve (.engine h) = (⟨(g.engine h).map .engine, []⟩, g) :=
    serve_of_perform rfl
  rw [(serve_represents rep _).1, hperform, ← engine_eq_ok_iff]
  cases g.engine h with
  | ok e' => simp [Except.map]
  | error f => simp [Except.map]

theorem follows {history : List Event} (track : Tracks history g) (rep : Represents t g) :
    Follows t history where
  creations_eq := by rw [track.length_creations, track.creations_eq]
  next_eq := by rw [track.length_creations, rep.next_eq]
  contains_iff h := by rw [rep.contains_eq, track.contains_iff_live]
  engine_iff h e := (serve_engine_iff rep).trans (track.engine?_iff h e)
  size_add := by rw [track.length_creations, rep.size_eq, track.size_add]
  not_contains_of_released h hh := by
    rw [rep.contains_eq, Registry.contains, (track.released h hh).2]
    exact Bool.false_ne_true
  create r built hb := by
    rw [serve_of_build rep hb, rep.next_eq, track.length_creations]
  unknown r h hr hc hadmits := by
    rw [serve_of_not_contains rep hr hc, Fault.raised, if_pos (by simpa [Fault.numbers])]
  unknown_tooLong r h hr hc hadmits := by
    rw [serve_of_not_contains rep hr hc, Fault.raised, if_neg (by simpa [Fault.numbers])]
  unchanged r := by
    rintro (hr | ⟨f, hf⟩)
    · exact serve_of_isRead hr t
    · exact serve_of_error rep hf

/-! ## Several tables -/

/-- Serves requests on several tables. A request for a position without a table is
left out. -/
def serveEach (ts : List HandleTable) :
    List (Nat × Request) → List (Nat × Event) × List HandleTable
  | [] => ([], ts)
  | (i, r) :: steps =>
    match serveAt ts i r with
    | none => serveEach ts steps
    | some (outcome, ts) =>
      let rest := serveEach ts steps
      ((i, ⟨r, outcome.result⟩) :: rest.1, rest.2)

theorem serveAt_eq (ts : List HandleTable) (i : Nat) (r : Request) :
    serveAt ts i r = ts[i]?.map fun t => ((t.serve r).1, ts.set i (t.serve r).2) := by
  unfold serveAt
  cases ts[i]? with
  | none => rfl
  | some t => rfl

/-- **Tables are independent.** Each serves its own requests as if there were no
others. -/
theorem serveEach_atPosition (steps : List (Nat × Request)) {ts : List HandleTable} {i : Nat}
    {t : HandleTable} (ht : ts[i]? = some t) :
    atPosition i (serveEach ts steps).1 = (t.serveAll (atPosition i steps)).1 ∧
      (serveEach ts steps).2[i]? = some (t.serveAll (atPosition i steps)).2 := by
  induction steps generalizing ts t with
  | nil => exact ⟨rfl, ht⟩
  | cons step steps ih =>
      obtain ⟨j, r⟩ := step
      rw [serveEach, serveAt_eq]
      by_cases hj : j = i
      · subst hj
        obtain ⟨hlt, -⟩ := List.getElem?_eq_some_iff.mp ht
        have ht' : (ts.set j (t.serve r).2)[j]? = some (t.serve r).2 :=
          List.getElem?_set_self hlt
        obtain ⟨hevents, hlast⟩ := ih ht'
        rw [ht]
        simp only [atPosition, Option.map_some] at hevents hlast ⊢
        simp [serveAll, hevents, hlast]
      · cases htj : ts[j]? with
        | none =>
            obtain ⟨hevents, hlast⟩ := ih ht
            simpa [atPosition, hj] using ⟨hevents, hlast⟩
        | some t' =>
            have ht' : (ts.set j (t'.serve r).2)[i]? = some t := by
              rw [List.getElem?_set_ne hj, ht]
            obtain ⟨hevents, hlast⟩ := ih ht'
            simpa [atPosition, hj] using ⟨hevents, hlast⟩

/-- **Tables follow their histories.** Whatever requests any number of new tables have
served, each of them is as its own history says. -/
theorem serveEach_follows (k : Nat) (steps : List (Nat × Request)) (i : Nat) (hi : i < k) :
    ∃ history t, atPosition i (serveEach (List.replicate k {}) steps).1 = history ∧
      (serveEach (List.replicate k {}) steps).2[i]? = some t ∧
      (history, t) = serveAll {} (atPosition i steps) ∧ Follows t history := by
  have ht : (List.replicate k ({} : HandleTable))[i]? = some {} := by
    rw [List.getElem?_replicate, if_pos hi]
  obtain ⟨hhistory, hlast⟩ := serveEach_atPosition steps ht
  have hrep := (represents_serveAll represents_empty (atPosition i steps)).2
  exact ⟨_, _, hhistory, hlast, Prod.mk.eta, follows (tracks_serveAll _) hrep⟩

end Serve

def reregistration : List (Nat × Request) :=
  [(0, .createPublic [21] (.int 1) (.int 1)), (1, .engine 1), (0, .release 1),
    (0, .createPublic [20] (.int 1) (.int 1)), (0, .createPublic [21] (.int 1) (.int (-1))),
    (0, .release tooLong)]

/-- The second key is registered under the handle 2. A handle that is too long is unknown, and
is not cited where 4300 digits are the limit. -/
theorem serveEach_follows_reregistration : 0 < 2 ∧
    ∃ history t,
      atPosition 0 (serveEach (List.replicate 2 {}) reregistration).1 = history ∧
      (serveEach (List.replicate 2 {}) reregistration).2[0]? = some t ∧
      (history, t) = serveAll {} (atPosition 0 reregistration) ∧ Follows t history ∧
      creations history = [1, 2] ∧ releases history = [1] ∧ t.size = 1 ∧ ¬ t.contains 1 ∧
      t.serve (.release tooLong) = (⟨.error .digitLimit, []⟩, t) ∧
      (@serve Machine.unlimited {} (.release tooLong)).1.result =
        .error (.unknownHandle tooLong) := by
  obtain ⟨history, t, hhistory, hlast, hrun, hfollows⟩ :=
    serveEach_follows 2 reregistration 0 (by decide)
  have hcreations : creations history = [1, 2] := by
    rw [← hhistory]
    decide +kernel
  have hreleases : releases history = [1] := by
    rw [← hhistory]
    decide +kernel
  have hsize : t.size = 1 := by
    have hadd := hfollows.size_add
    rw [hcreations, hreleases] at hadd
    simpa using hadd
  have hunknown : ¬ t.contains tooLong := by
    have hcontains : (serveEach (List.replicate 2 {}) reregistration).2[0]?.map
        (·.contains tooLong) = some false := by
      decide +kernel
    rw [hlast] at hcontains
    simpa using hcontains
  refine ⟨by decide, history, t, hhistory, hlast, hrun, hfollows, hcreations, hreleases, hsize,
    hfollows.not_contains_of_released 1 (by rw [hreleases]; exact List.mem_singleton_self 1),
    hfollows.unknown_tooLong _ _ rfl hunknown not_admits_tooLong, ?_⟩
  obtain ⟨_, t', -, hempty, -, hfollows'⟩ :=
    @serveEach_follows Machine.unlimited 1 [] 0 (by decide)
  obtain rfl := Option.some.inj hempty
  exact congrArg (·.1.result) (@Follows.unknown Machine.unlimited _ _ hfollows'
    (.release tooLong) tooLong rfl nofun (DigitLimit.admits_none _))

end HandleTable

end Blum
