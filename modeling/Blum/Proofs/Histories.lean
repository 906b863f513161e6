import Mathlib
import Blum.Proofs.DigitLimits
import Blum.Proofs.Handles

/-!
# Registries and their histories

The history of a registry, that is its requests with their answers, determines
what is behind its handles, and it does so in terms of creations and releases
alone. Handle `i` is what the `i`-th successful creation answers. An engine is
there from the creation that answers its handle until the handle is released,
and never again.

The induction is from the end of the history: `Tracks` is the invariant, and
`Tracks.step_raised` carries it over one request.
-/

namespace Blum

structure Event where
  request : Request
  result : Except Fault Answer

namespace Event

def created? [Machine] (event : Event) : Option Nat :=
  match event.request.build?, event.result with
  | some _, .ok (.handle id) => some id
  | _, _ => none

def released? (event : Event) : Option Int :=
  match event.request, event.result with
  | .release h, .ok .released => some h
  | _, _ => none

theorem created?_of_error [Machine] (r : Request) (f : Fault) :
    created? ⟨r, .error f⟩ = none := by
  unfold created?
  cases r.build? with
  | none => rfl
  | some built => rfl

theorem released?_of_error (r : Request) (f : Fault) :
    released? ⟨r, .error f⟩ = none := by
  cases r with
  | _ => rfl

theorem created?_of_isRead [Machine] {r : Request} (hr : r.isRead) (result : Except Fault Answer) :
    created? ⟨r, result⟩ = none := by
  simp only [created?, Request.build?_of_isRead hr]

theorem released?_of_isRead {r : Request} (hr : r.isRead) (result : Except Fault Answer) :
    released? ⟨r, result⟩ = none := by
  cases r with
  | release h => cases hr
  | _ => rfl

theorem created?_of_build [Machine] {r : Request} {built : Except Fault Engine}
    (hb : r.build? = some built) (id : Nat) :
    created? ⟨r, .ok (.handle id)⟩ = some id := by
  simp only [created?, hb]

end Event

namespace Registry

/-! ## What a history says -/

def atPosition {α : Type} (i : Nat) (xs : List (Nat × α)) : List α :=
  (xs.filter (·.1 = i)).map (·.2)

def releases (history : List Event) : List Int :=
  history.filterMap Event.released?

@[simp]
theorem releases_append_singleton (history : List Event) (event : Event) :
    releases (history ++ [event]) = releases history ++ event.released?.toList := by
  rw [releases, List.filterMap_append]
  cases hr : event.released? with
  | none => simp [releases, hr]
  | some h => simp [releases, hr]

variable [Machine]

def creations (history : List Event) : List Nat :=
  history.filterMap Event.created?

@[simp]
theorem creations_append_singleton (history : List Event) (event : Event) :
    creations (history ++ [event]) = creations history ++ event.created?.toList := by
  rw [creations, List.filterMap_append]
  cases hc : event.created? with
  | none => simp [creations, hc]
  | some id => simp [creations, hc]

/-- A creation answered `h`, and no later release of `h` succeeded. -/
def Live (history : List Event) (h : Int) : Prop :=
  ∃ before event after, ∃ id : Nat, history = before ++ event :: after ∧
    event.created? = some id ∧ (id : Int) = h ∧
    ∀ later ∈ after, later.released? ≠ some h

/-- As `Live`, and the creation built the engine `e`. -/
def Holds (history : List Event) (h : Int) (e : Engine) : Prop :=
  ∃ before event after, ∃ id : Nat, history = before ++ event :: after ∧
    event.created? = some id ∧ (id : Int) = h ∧ event.request.build? = some (.ok e) ∧
    ∀ later ∈ after, later.released? ≠ some h

/-- The last event counts last: it can build the engine or release it. -/
theorem holds_append_singleton {history : List Event} {event : Event} {h : Int}
    {e : Engine} : Holds (history ++ [event]) h e ↔
      (Holds history h e ∧ event.released? ≠ some h) ∨
      ∃ id : Nat, event.created? = some id ∧ (id : Int) = h ∧
        event.request.build? = some (.ok e) := by
  constructor
  · rintro ⟨before, c, after, id, heq, hid, hh, hb, hafter⟩
    rcases List.eq_nil_or_concat after with rfl | ⟨after, last, rfl⟩
    · obtain ⟨rfl, hlast⟩ := List.append_inj' heq rfl
      obtain rfl := List.singleton_inj.mp hlast
      exact Or.inr ⟨id, hid, hh, hb⟩
    · rw [List.concat_eq_append, ← List.cons_append, ← List.append_assoc] at heq
      obtain ⟨rfl, hlast⟩ := List.append_inj' heq rfl
      obtain rfl := List.singleton_inj.mp hlast
      rw [List.concat_eq_append] at hafter
      refine Or.inl ⟨⟨before, c, after, id, rfl, hid, hh, hb, ?_⟩, ?_⟩
      · intro later hl
        exact hafter later (List.mem_append_left _ hl)
      · exact hafter event (List.mem_append_right _ (List.mem_singleton_self _))
  · rintro (⟨⟨before, c, after, id, rfl, hid, hh, hb, hafter⟩, hr⟩ | ⟨id, hid, hh, hb⟩)
    · refine ⟨before, c, after ++ [event], id, by simp, hid, hh, hb, ?_⟩
      intro later hl
      rcases List.mem_append.mp hl with hl | hl
      · exact hafter later hl
      · obtain rfl := List.mem_singleton.mp hl
        exact hr
    · exact ⟨history, event, [], id, rfl, hid, hh, hb, List.forall_mem_nil _⟩

def serveAll (g : Registry) : List Request → List Event × Registry
  | [] => ([], g)
  | r :: rs =>
    let rest := (g.serve r).2.serveAll rs
    (⟨r, (g.serve r).1.result⟩ :: rest.1, rest.2)

theorem serveAll_append_singleton (g : Registry) (rs : List Request) (r : Request) :
    g.serveAll (rs ++ [r]) =
      ((g.serveAll rs).1 ++ [⟨r, ((g.serveAll rs).2.serve r).1.result⟩],
        ((g.serveAll rs).2.serve r).2) := by
  induction rs generalizing g with
  | nil => rfl
  | cons r' rs ih =>
      simp only [List.cons_append, serveAll, ih]

/-! ## The invariant -/

/-- A registry as its history tells it. The slots are as many as the
creations, so the next handle is one that was never answered. -/
structure Tracks (history : List Event) (g : Registry) : Prop where
  creations_eq : creations history = List.range' 1 g.slots.length
  engine?_iff : ∀ h e, g.engine? h = some e ↔ Holds history h e
  size_add : g.size + (releases history).length = g.slots.length
  released : ∀ h ∈ releases history, h ≤ g.slots.length ∧ g.engine? h = none
  built : ∀ event ∈ history, ∀ id, event.created? = some id →
    ∃ e, event.request.build? = some (.ok e)

theorem tracks_nil : Tracks [] {} where
  creations_eq := rfl
  engine?_iff h e := by
    constructor
    · intro he
      obtain ⟨-, hslot⟩ := engine?_eq_some_iff.mp he
      cases hslot
    · rintro ⟨before, event, after, id, heq, -⟩
      simp at heq
  size_add := rfl
  released := List.forall_mem_nil _
  built := List.forall_mem_nil _

namespace Tracks

variable {history : List Event} {g : Registry} (t : Tracks history g)
include t

theorem append_silent {event : Event} (hc : event.created? = none)
    (hr : event.released? = none) : Tracks (history ++ [event]) g where
  creations_eq := by simpa [hc] using t.creations_eq
  engine?_iff h e := by
    rw [t.engine?_iff, holds_append_singleton, hc, hr]
    simp
  size_add := by simpa [hr] using t.size_add
  released h hh := t.released h (by simpa [hr] using hh)
  built := by
    refine List.forall_mem_append.mpr ⟨t.built, List.forall_mem_singleton.mpr ?_⟩
    intro id hid
    cases hc.symm.trans hid

theorem append_created {r : Request} {e : Engine} (hb : r.build? = some (.ok e)) :
    Tracks (history ++ [⟨r, .ok (.handle (g.slots.length + 1))⟩]) (g.insert e) := by
  have hc := Event.created?_of_build hb (g.slots.length + 1)
  have hr : Event.released? ⟨r, .ok (.handle (g.slots.length + 1))⟩ = none := by
    cases r with
    | _ => rfl
  refine ⟨?_, ?_, ?_, ?_, ?_⟩
  · rw [creations_append_singleton, hc, t.creations_eq, length_insert,
      List.range'_1_concat, Nat.add_comm 1]
    rfl
  · intro h e'
    rw [engine?_insert, t.engine?_iff, holds_append_singleton, hc, hr]
    constructor
    · rintro (hh | ⟨rfl, rfl⟩)
      · exact Or.inl ⟨hh, nofun⟩
      · exact Or.inr ⟨_, rfl, rfl, hb⟩
    · rintro (⟨hh, -⟩ | ⟨id, hid, rfl, hb'⟩)
      · exact Or.inl hh
      · obtain rfl := Option.some.inj hid
        obtain rfl := Except.ok.inj (Option.some.inj (hb.symm.trans hb'))
        exact Or.inr ⟨rfl, rfl⟩
  · have hadd := t.size_add
    simp only [releases_append_singleton, hr, Option.toList_none, List.append_nil,
      length_insert, size_insert]
    omega
  · intro h hh
    obtain ⟨hle, hnone⟩ := t.released h (by simpa [hr] using hh)
    -- the new handle lies beyond the slots, where no release has been
    refine ⟨?_, (engine?_insert_of_le hle).trans hnone⟩
    rw [length_insert]
    omega
  · refine List.forall_mem_append.mpr ⟨t.built, List.forall_mem_singleton.mpr ?_⟩
    intro id hid
    exact ⟨e, hb⟩

theorem append_released {h₀ : Int} (hk : g.contains h₀) :
    Tracks (history ++ [⟨.release h₀, .ok .released⟩]) (g.erase h₀) := by
  have hc : Event.created? ⟨.release h₀, .ok .released⟩ = none := rfl
  have hr : Event.released? ⟨.release h₀, .ok .released⟩ = some h₀ := rfl
  refine ⟨?_, ?_, ?_, ?_, ?_⟩
  · simpa [hc] using t.creations_eq
  · intro h e
    rw [engine?_erase, t.engine?_iff, holds_append_singleton, hc, hr]
    constructor
    · rintro ⟨hh, hne⟩
      exact Or.inl ⟨hh, fun heq => hne (Option.some.inj heq).symm⟩
    · rintro (⟨hh, hne⟩ | ⟨id, hid, -⟩)
      · exact ⟨hh, fun heq => hne (congrArg some heq.symm)⟩
      · cases hid
  · have hsize := size_erase hk
    have hadd := t.size_add
    simp only [releases_append_singleton, hr, Option.toList_some, List.length_append,
      List.length_singleton, length_erase]
    omega
  · intro h hh
    rw [releases_append_singleton, hr] at hh
    rw [length_erase]
    rcases List.mem_append.mp hh with hh | hh
    · obtain ⟨hle, hnone⟩ := t.released h hh
      exact ⟨hle, engine?_erase_of_none hnone⟩
    · obtain rfl := List.mem_singleton.mp hh
      refine ⟨?_, engine?_erase_self⟩
      by_contra hlt
      obtain ⟨e, he⟩ := contains_iff.mp hk
      cases (engine?_of_length_lt (not_le.mp hlt)).symm.trans he
  · refine List.forall_mem_append.mpr ⟨t.built, List.forall_mem_singleton.mpr ?_⟩
    intro id hid
    cases hc.symm.trans hid

/-- **One request keeps the invariant**, whatever becomes of a fault on its way to the
caller. -/
theorem step_raised (limit : DigitLimit) {r : Request} {result : Except Fault Answer}
    {g' : Registry} (hs : Served g r result g') :
    Tracks (history ++ [⟨r, limit.raised result⟩]) g' := by
  cases hs with
  | created hb => exact t.append_created hb
  | notCreated hb =>
      exact t.append_silent (Event.created?_of_error _ _) (Event.released?_of_error _ _)
  | released hk => exact t.append_released hk
  | notReleased hu =>
      exact t.append_silent (Event.created?_of_error _ _) (Event.released?_of_error _ _)
  | read hr =>
      exact t.append_silent (Event.created?_of_isRead hr _) (Event.released?_of_isRead hr _)

end Tracks

/-- **Every run keeps the invariant.** The induction is from the end of the
run, where the invariant says what the next handle is. -/
theorem tracks_serveAll (rs : List Request) :
    Tracks (serveAll {} rs).1 (serveAll {} rs).2 := by
  induction rs using List.reverseRecOn with
  | nil => exact tracks_nil
  | append_singleton rs r ih =>
      rw [serveAll_append_singleton]
      have hstep := ih.step_raised none (served_serve (serveAll {} rs).2 r)
      rwa [DigitLimit.raised_none] at hstep

/-! ## Reading the invariant -/

theorem Holds.live {history : List Event} {h : Int} {e : Engine}
    (hh : Holds history h e) : Live history h := by
  obtain ⟨before, event, after, id, heq, hid, hih, -, hafter⟩ := hh
  exact ⟨before, event, after, id, heq, hid, hih, hafter⟩

namespace Tracks

variable {history : List Event} {g : Registry} (t : Tracks history g)
include t

theorem length_creations : (creations history).length = g.slots.length := by
  rw [t.creations_eq, List.length_range']

theorem contains_iff_live (h : Int) : g.contains h ↔ Live history h := by
  rw [contains_iff]
  constructor
  · rintro ⟨e, he⟩
    exact ((t.engine?_iff h e).mp he).live
  · rintro ⟨before, event, after, id, rfl, hid, hih, hafter⟩
    obtain ⟨e, hb⟩ := t.built event (by simp) id hid
    exact ⟨e, (t.engine?_iff h e).mpr ⟨before, event, after, id, rfl, hid, hih, hb, hafter⟩⟩

end Tracks

end Registry

end Blum
