import Mathlib
import Blum.Proofs.Boundary
import Blum.Proofs.Histories

/-!
# Clients of one registry

Several clients send requests to one registry, in any order, and each uses only
the handles that its own creations answered. None of them can tell that the
others exist: each receives what it receives from a registry of its own, except
that its handles have other numbers.

A script names handles as its client receives them when it is alone, so `k`
stands for what the `k`-th creation answers. On the shared registry that is some
other handle, and which one is in the history of the client. `Mirrors` compares
the two registries through this list of handles. A request of the client itself
moves both registries alike, and a request of another client touches none of the
handles on the list.

A new table of handles runs as a new registry does, so the clients of one table are
as much apart as those of one registry.
-/

namespace Blum

/-! ## Renaming handles -/

def Request.rename (ρ : Nat → Nat) : Request → Request
  | .apply h x => .apply (ρ h.toNat) x
  | .invert h y => .invert (ρ h.toNat) y
  | .accepts h x => .accepts (ρ h.toNat) x
  | .modulus h => .modulus (ρ h.toNat)
  | .engine h => .engine (ρ h.toNat)
  | .release h => .release (ρ h.toNat)
  | .contains h => .contains (ρ h.toNat)
  | creation => creation

def Answer.rename (ρ : Nat → Nat) : Answer → Answer
  | .handle id => .handle (ρ id)
  | answer => answer

def Fault.rename (ρ : Nat → Nat) : Fault → Fault
  | .unknownHandle h => .unknownHandle (ρ h.toNat)
  | fault => fault

def Event.rename (ρ : Nat → Nat) (event : Event) : Event where
  request := event.request.rename ρ
  result := match event.result with
    | .ok answer => .ok (answer.rename ρ)
    | .error fault => .error (fault.rename ρ)

def Request.reference? : Request → Option Int
  | .contains h => some h
  | r => r.handle?

section Rename

variable {ρ σ : Nat → Nat} {r : Request}

theorem Fault.OfEngine.rename {f : Fault} (hf : f.OfEngine) : f.rename ρ = f := by
  cases f with
  | unknownHandle h => exact hf.elim
  | _ => rfl

namespace Request

@[simp]
theorem isRead_rename : (r.rename ρ).isRead = r.isRead := by
  cases r with
  | _ => rfl

theorem handle?_or_contains {h : Int} (hr : r.reference? = some h) :
    r.handle? = some h ∨ r = .contains h := by
  cases r with
  | contains h' => exact Or.inr (congrArg _ (Option.some.inj hr))
  | _ => exact Or.inl hr

theorem handle?_rename {h : Int} (hr : r.handle? = some h) :
    (r.rename ρ).handle? = some (ρ h.toNat : Int) := by
  cases r with
  | createPrivate | createPublic | createRandom | contains => cases hr
  | _ =>
      obtain rfl := Option.some.inj hr
      rfl

theorem reference?_rename {h : Int} (hr : r.reference? = some h) :
    (r.rename ρ).reference? = some (ρ h.toNat : Int) := by
  cases r with
  | createPrivate | createPublic | createRandom => cases hr
  | _ =>
      obtain rfl := Option.some.inj hr
      rfl

theorem rename_of_build [Machine] {built : Except Fault Engine} (hb : r.build? = some built) :
    r.rename ρ = r := by
  cases r with
  | createPrivate | createPublic | createRandom => rfl
  | _ => cases hb

theorem failsAsEngine_of_build [Machine] {built : Except Fault Engine}
    (hb : r.build? = some built) : FailsAsEngine built := by
  cases r with
  | createPrivate n r s p q u =>
      obtain rfl := Option.some.inj hb
      exact Engine.failsAsEngine_ofRequest _
  | createPublic n r s =>
      obtain rfl := Option.some.inj hb
      exact Engine.failsAsEngine_ofRequest _
  | createRandom bits source =>
      obtain rfl := Option.some.inj hb
      exact fun f hf => (Engine.ensures_generate { bits }).of_error (Prod.ext hf rfl)
  | _ => cases hb

theorem rename_congr (h : ∀ h, r.reference? = some h → ρ h.toNat = σ h.toNat) :
    r.rename ρ = r.rename σ := by
  cases r with
  | createPrivate | createPublic | createRandom => rfl
  | _ => simp only [rename, h _ rfl]

theorem exists_reference_of_isRead (hr : r.isRead) : ∃ h, r.reference? = some h := by
  cases r with
  | createPrivate | createPublic | createRandom | release => cases hr
  | _ => exact ⟨_, rfl⟩

end Request

end Rename

/-! ## What a read looks at -/

namespace Request

open Bytes

/-- What a read comes to when the engine `e` is behind its handle. -/
def ask? (e : Engine) : Request → Option (Except Fault Answer)
  | .apply _ x => some ((e.apply (decode x)).map fun z => .bytes (encodeNat z.toNat))
  | .invert _ y => some ((e.invert (decode y)).map fun z => .bytes (encodeNat z.toNat))
  | .accepts _ x => some ((e.accepts (decode x)).map .truth)
  | .modulus _ => some (.ok (.bytes (encodeNat e.modulus.toNat)))
  | .engine _ => some (.ok (.engine e))
  | .contains _ => some (.ok (.truth true))
  | _ => none

variable {ρ : Nat → Nat} {r : Request} {e : Engine} {result : Except Fault Answer}

@[simp]
theorem ask?_rename : (r.rename ρ).ask? e = r.ask? e := by
  cases r with
  | _ => rfl

theorem exists_ask_of_isRead (e : Engine) (hr : r.isRead) : ∃ result, r.ask? e = some result := by
  cases r with
  | createPrivate | createPublic | createRandom | release => cases hr
  | _ => exact ⟨_, rfl⟩

end Request

namespace Event

variable {ρ : Nat → Nat} {r : Request} {e : Engine} {result : Except Fault Answer}

theorem rename_map {α : Type} {d : Except Fault α} {f : α → Answer}
    (hd : FailsAsEngine d) (hf : ∀ a, (f a).rename ρ = f a) :
    rename ρ ⟨r, d.map f⟩ = ⟨r.rename ρ, d.map f⟩ := by
  cases d with
  | ok a => simp only [rename, Except.map, hf a]
  | error fault => simp only [rename, Except.map, (hd fault rfl).rename]

/-- Engines know nothing about handles, so renaming leaves their answers alone. -/
theorem rename_of_ask (ha : r.ask? e = some result) :
    rename ρ ⟨r, result⟩ = ⟨r.rename ρ, result⟩ := by
  cases r with
  | apply h x =>
      obtain rfl := Option.some.inj ha
      exact rename_map (e.failsAsEngine_apply _) fun _ => rfl
  | invert h y =>
      obtain rfl := Option.some.inj ha
      exact rename_map (e.failsAsEngine_invert _) fun _ => rfl
  | accepts h x =>
      obtain rfl := Option.some.inj ha
      exact rename_map (e.failsAsEngine_accepts _) fun _ => rfl
  | modulus | engine | contains =>
      obtain rfl := Option.some.inj ha
      rfl
  | _ => cases ha

end Event

namespace Registry

variable {g g' : Registry} {r : Request} {h : Int} {e : Engine}

theorem serve_of_ask [Machine] {result : Except Fault Answer} (hh : r.reference? = some h)
    (he : g.engine? h = some e) (ha : r.ask? e = some result) :
    (g.serve r).1.result = result := by
  have hok := engine_eq_ok_iff.mpr he
  cases r with
  | apply h' x =>
      obtain rfl := Option.some.inj hh
      obtain rfl := Option.some.inj ha
      rw [serve_of_perform (d := g.apply h' x) rfl, apply_of_engine hok]
      exact Functor.map_map _ _ (e.apply (Bytes.decode x))
  | invert h' y =>
      obtain rfl := Option.some.inj hh
      obtain rfl := Option.some.inj ha
      rw [serve_of_perform (d := g.invert h' y) rfl, invert_of_engine hok]
      exact Functor.map_map _ _ (e.invert (Bytes.decode y))
  | accepts h' x =>
      obtain rfl := Option.some.inj hh
      obtain rfl := Option.some.inj ha
      rw [serve_of_perform (d := g.accepts h' x) rfl, accepts_of_engine hok]
  | modulus h' =>
      obtain rfl := Option.some.inj hh
      obtain rfl := Option.some.inj ha
      rw [serve_of_perform (d := g.modulus h') rfl, modulus_of_engine hok]
      rfl
  | engine h' =>
      obtain rfl := Option.some.inj hh
      obtain rfl := Option.some.inj ha
      rw [serve_of_perform (d := g.engine h') rfl, hok]
      rfl
  | contains h' =>
      obtain rfl := Option.some.inj hh
      obtain rfl := Option.some.inj ha
      show Except.ok (Answer.truth (g.contains h')) = _
      rw [contains_iff.mpr ⟨e, he⟩]
  | _ => cases ha

/-- **A read looks at the engine behind its handle**, and at nothing else. -/
theorem event_rename_of_isRead [Machine] {ρ : Nat → Nat} (hr : r.isRead)
    (hengine : ∀ h, r.reference? = some h → g'.engine? (ρ h.toNat) = g.engine? h) :
    (⟨r.rename ρ, (g'.serve (r.rename ρ)).1.result⟩ : Event) =
      Event.rename ρ ⟨r, (g.serve r).1.result⟩ := by
  obtain ⟨h, hh⟩ := Request.exists_reference_of_isRead hr
  have heq := hengine h hh
  cases hg : g.engine? h with
  | some e =>
      obtain ⟨result, ha⟩ := Request.exists_ask_of_isRead e hr
      rw [serve_of_ask hh hg ha, Event.rename_of_ask ha,
        serve_of_ask (Request.reference?_rename hh) (heq.trans hg) (by simpa using ha)]
  | none =>
      have hc : ¬ g.contains h := by simp [contains, hg]
      have hc' : ¬ g'.contains (ρ h.toNat) := by simp [contains, heq, hg]
      rcases Request.handle?_or_contains hh with hh' | rfl
      · rw [serve_of_not_contains hh' hc,
          serve_of_not_contains (Request.handle?_rename hh') hc']
        rfl
      · show (⟨_, .ok (.truth (g'.contains (ρ h.toNat)))⟩ : Event) =
          ⟨_, .ok (.truth (g.contains h))⟩
        rw [Bool.eq_false_of_not_eq_true hc, Bool.eq_false_of_not_eq_true hc']

/-! ## Clients -/

/-- The handle that the client with the handles `own` received from its `k`-th
creation. -/
def received (own : List Nat) (k : Nat) : Nat :=
  own.getD (k - 1) 0

def serveClient [Machine] (state : List (Nat × Event) × Registry) (step : Nat × Request) :
    List (Nat × Event) × Registry :=
  let own := creations (atPosition step.1 state.1)
  let request := step.2.rename (received own)
  let (outcome, g) := state.2.serve request
  (state.1 ++ [(step.1, ⟨request, outcome.result⟩)], g)

def serveClients [Machine] (steps : List (Nat × Request)) : List (Nat × Event) × Registry :=
  steps.foldl serveClient ([], {})

theorem serveClients_append_singleton [Machine] (steps : List (Nat × Request))
    (step : Nat × Request) :
    serveClients (steps ++ [step]) = serveClient (serveClients steps) step := by
  rw [serveClients, List.foldl_append]
  rfl

/-- All clients together make one run of the registry. -/
theorem serveAll_serveClients [Machine] (steps : List (Nat × Request)) :
    serveAll {} ((serveClients steps).1.map (·.2.request)) =
      ((serveClients steps).1.map (·.2), (serveClients steps).2) := by
  induction steps using List.reverseRecOn with
  | nil => rfl
  | append_singleton steps step ih =>
      rw [serveClients_append_singleton, serveClient, List.map_append, List.map_append,
        List.map_singleton, List.map_singleton, serveAll_append_singleton, ih]

/-- Each request refers to nothing but the handles that earlier creations of the
same script answer, released or not. -/
def OwnHandles [Machine] (script : List Request) : Prop :=
  ∀ (k : Nat) (hk : k < script.length), ∀ h ∈ script[k].reference?,
    ∃ id ∈ creations (serveAll {} (script.take k)).1, h = (id : Int)

instance [Machine] : DecidablePred OwnHandles := fun script =>
  inferInstanceAs (Decidable (∀ (k : Nat) (hk : k < script.length), ∀ h ∈ script[k].reference?,
    ∃ id ∈ creations (serveAll {} (script.take k)).1, h = (id : Int)))

theorem ownHandles_append_singleton [Machine] {script : List Request}
    (h : OwnHandles (script ++ [r])) :
    OwnHandles script ∧ ∀ h, r.reference? = some h →
      ∃ id ∈ creations (serveAll {} script).1, h = (id : Int) := by
  constructor
  · intro k hk
    have hprefix := h k (by rw [List.length_append]; omega)
    rwa [List.getElem_append_left hk, List.take_append_of_le_length hk.le] at hprefix
  · have hlast := h script.length (by simp)
    simpa using hlast

/-! ## Two registries beside each other -/

/-- What a client has on the shared registry is what it has on its own: behind
the `k`-th handle of `own` is the engine that its own registry has behind the
handle `k`. -/
structure Mirrors (own : List Nat) (shared alone : Registry) : Prop where
  length_eq : own.length = alone.slots.length
  engine?_eq : ∀ k id : Nat, own[k]? = some id →
    shared.engine? id = alone.engine? ((k + 1 : Nat) : Int)
  le_length : ∀ id ∈ own, 0 < id ∧ id ≤ shared.slots.length
  nodup : own.Nodup

theorem mirrors_nil : Mirrors [] {} {} where
  length_eq := rfl
  engine?_eq := nofun
  le_length := List.forall_mem_nil _
  nodup := List.nodup_nil

namespace Mirrors

variable {own : List Nat} {shared alone : Registry} (m : Mirrors own shared alone)
include m

theorem next_not_mem : shared.slots.length + 1 ∉ own := by
  intro hmem
  have := (m.le_length _ hmem).2
  omega

theorem insert (e : Engine) :
    Mirrors (own ++ [shared.slots.length + 1]) (shared.insert e) (alone.insert e) where
  length_eq := by simp [m.length_eq]
  engine?_eq k id hk := by
    rcases Nat.lt_or_ge k own.length with hlt | hge
    · rw [List.getElem?_append_left hlt] at hk
      have hid := (m.le_length id (List.mem_of_getElem? hk)).2
      have hlen := m.length_eq
      rw [engine?_insert_of_le (by omega), engine?_insert_of_le (by omega), m.engine?_eq k id hk]
    · rw [List.getElem?_append_right hge, List.getElem?_singleton] at hk
      split_ifs at hk with hzero
      obtain rfl := Option.some.inj hk
      obtain rfl : k = alone.slots.length := by
        have := m.length_eq
        omega
      push_cast
      rw [engine?_insert_self, engine?_insert_self]
  le_length id hid := by
    rw [length_insert]
    rcases List.mem_append.mp hid with hid | hid
    · have := m.le_length id hid
      omega
    · obtain rfl := List.mem_singleton.mp hid
      omega
  nodup := by
    rw [← List.concat_eq_append, List.nodup_concat]
    exact ⟨m.next_not_mem, m.nodup⟩

theorem erase {k id : Nat} (hk : own[k]? = some id) :
    Mirrors own (shared.erase id) (alone.erase ((k + 1 : Nat) : Int)) where
  length_eq := by rw [length_erase, m.length_eq]
  engine?_eq k' id' hk' := by
    by_cases heq : k' = k
    · subst heq
      obtain rfl := Option.some.inj (hk.symm.trans hk')
      rw [engine?_erase_self, engine?_erase_self]
    · have hid : id' ≠ id := by
        rintro rfl
        obtain ⟨hlt, -⟩ := List.getElem?_eq_some_iff.mp hk'
        exact heq ((List.getElem?_inj hlt m.nodup).mp (hk'.trans hk.symm))
      rw [engine?_erase_of_ne (by exact_mod_cast hid), engine?_erase_of_ne (by omega),
        m.engine?_eq k' id' hk']
  le_length id' hid' := by
    rw [length_erase]
    exact m.le_length id' hid'
  nodup := m.nodup

theorem insert_foreign (e : Engine) : Mirrors own (shared.insert e) alone where
  length_eq := m.length_eq
  engine?_eq k id hk := by
    have hid := (m.le_length id (List.mem_of_getElem? hk)).2
    rw [engine?_insert_of_le (by omega), m.engine?_eq k id hk]
  le_length id hid := by
    have := m.le_length id hid
    rw [length_insert]
    omega
  nodup := m.nodup

theorem erase_foreign {id₀ : Nat} (hid₀ : id₀ ∉ own) : Mirrors own (shared.erase id₀) alone where
  length_eq := m.length_eq
  engine?_eq k id hk := by
    have hid : id ≠ id₀ := by
      rintro rfl
      exact hid₀ (List.mem_of_getElem? hk)
    rw [engine?_erase_of_ne (by exact_mod_cast hid), m.engine?_eq k id hk]
  le_length id hid := by
    rw [length_erase]
    exact m.le_length id hid
  nodup := m.nodup

end Mirrors

/-! ## One request of a client -/

def Names (ρ : Nat → Nat) (own : List Nat) : Prop :=
  ∀ k id, own[k]? = some id → ρ (k + 1) = id

theorem names_received (own : List Nat) : Names (received own) own := by
  intro k id hk
  simp [received, hk]

theorem Names.of_append {ρ : Nat → Nat} {own given : List Nat} (hρ : Names ρ (own ++ given)) :
    Names ρ own := by
  intro k id hk
  obtain ⟨hlt, -⟩ := List.getElem?_eq_some_iff.mp hk
  exact hρ k id ((List.getElem?_append_left hlt).trans hk)

def Refers (own : List Nat) (r : Request) : Prop :=
  ∀ h, r.reference? = some h → ∃ k id, own[k]? = some id ∧ h = ((k + 1 : Nat) : Int)

theorem Refers.rename_eq {ρ σ : Nat → Nat} {own : List Nat} (hr : Refers own r)
    (hρ : Names ρ own) (hσ : Names σ own) : r.rename ρ = r.rename σ := by
  refine Request.rename_congr fun h hh => ?_
  obtain ⟨k, id, hk, rfl⟩ := hr h hh
  rw [Int.toNat_natCast, hρ k id hk, hσ k id hk]

/-- What a client with the handles `own` can do to the registry, with the new
handles that it is given. -/
inductive Moves (own : List Nat) (g : Registry) : List Nat → Registry → Prop
  | creates (e : Engine) : Moves own g [g.slots.length + 1] (g.insert e)
  | releases {id : Nat} (mem : id ∈ own) : Moves own g [] (g.erase id)
  | rests : Moves own g [] g

/-- **The others notice nothing**, and none of their handles is given away. -/
theorem Moves.foreign {own own' given : List Nat} {shared shared' alone : Registry}
    (hm : Moves own shared given shared') (m : Mirrors own' shared alone)
    (hdisjoint : own.Disjoint own') :
    Mirrors own' shared' alone ∧ (own ++ given).Disjoint own' := by
  cases hm with
  | creates e =>
      refine ⟨m.insert_foreign e, List.disjoint_append_left.mpr ⟨hdisjoint, ?_⟩⟩
      exact List.singleton_disjoint.mpr m.next_not_mem
  | releases hmem =>
      rw [List.append_nil]
      exact ⟨m.erase_foreign (hdisjoint hmem), hdisjoint⟩
  | rests =>
      rw [List.append_nil]
      exact ⟨m, hdisjoint⟩

structure Stepped [Machine] (own : List Nat) (shared alone : Registry) (r : Request) (event : Event)
    (shared' : Registry) : Prop where
  moves : Moves own shared event.created?.toList shared'
  mirrors : Mirrors (own ++ event.created?.toList) shared' (alone.serve r).2
  event_eq : ∀ ρ, Names ρ (own ++ event.created?.toList) →
    event = Event.rename ρ ⟨r, (alone.serve r).1.result⟩

namespace Mirrors

variable {own : List Nat} {shared alone : Registry} (m : Mirrors own shared alone)
include m

theorem stepped_of_silent [Machine] {event : Event} (hc : event.created? = none)
    (halone : (alone.serve r).2 = alone)
    (hevent : ∀ ρ, Names ρ own → event = Event.rename ρ ⟨r, (alone.serve r).1.result⟩) :
    Stepped own shared alone r event shared where
  moves := by
    rw [hc]
    exact .rests
  mirrors := by
    rw [hc, halone, Option.toList_none, List.append_nil]
    exact m
  event_eq := by
    rw [hc, Option.toList_none, List.append_nil]
    exact hevent

theorem stepped_of_build [Machine] {built : Except Fault Engine} (hb : r.build? = some built) :
    Stepped own shared alone r ⟨r, (shared.serve r).1.result⟩ (shared.serve r).2 := by
  obtain ⟨hresult, hg⟩ := serve_of_build (g := shared) hb
  obtain ⟨hresult₀, hg₀⟩ := serve_of_build (g := alone) hb
  rw [hresult, hg]
  cases built with
  | error f =>
      refine m.stepped_of_silent (Event.created?_of_error r f) hg₀ fun ρ _ => ?_
      have hf : f.OfEngine := Request.failsAsEngine_of_build hb f rfl
      rw [hresult₀]
      simp only [Event.rename, Request.rename_of_build hb, Except.map, hf.rename]
  | ok e =>
      have hc : Event.created? ⟨r, .ok (.handle (shared.slots.length + 1))⟩ =
          some (shared.slots.length + 1) := Event.created?_of_build hb _
      refine ⟨?_, ?_, fun ρ hρ => ?_⟩
      · simp only [Except.map, hc]
        exact .creates e
      · simp only [Except.map, hc, hg₀]
        exact m.insert e
      · simp only [Except.map, hc] at hρ
        have hlast := hρ own.length (shared.slots.length + 1) (by simp)
        rw [m.length_eq] at hlast
        rw [hresult₀]
        simp only [Event.rename, Request.rename_of_build hb, Except.map, Answer.rename, hlast]

theorem stepped_of_release [Machine] {k id : Nat} (hk : own[k]? = some id) :
    Stepped own shared alone (.release ((k + 1 : Nat) : Int))
      ⟨.release id, (shared.serve (.release id)).1.result⟩ (shared.serve (.release id)).2 := by
  have hcontains : shared.contains id = alone.contains ((k + 1 : Nat) : Int) :=
    congrArg Option.isSome (m.engine?_eq k id hk)
  by_cases hc : alone.contains ((k + 1 : Nat) : Int)
  · obtain ⟨hresult, hg⟩ := serve_release (hcontains.trans hc)
    obtain ⟨hresult₀, hg₀⟩ := serve_release hc
    rw [hresult, hg]
    refine ⟨.releases (List.mem_of_getElem? hk), ?_, fun ρ hρ => ?_⟩
    · rw [hg₀]
      show Mirrors (own ++ []) _ _
      rw [List.append_nil]
      exact m.erase hk
    · rw [hresult₀]
      simp only [Event.rename, Request.rename, Answer.rename, Int.toNat_natCast,
        hρ.of_append k id hk]
  · have hc' : ¬ shared.contains id := by rwa [hcontains]
    rw [serve_of_not_contains rfl hc']
    refine m.stepped_of_silent rfl (by rw [serve_of_not_contains rfl hc]) fun ρ hρ => ?_
    rw [serve_of_not_contains rfl hc]
    simp only [Event.rename, Request.rename, Fault.rename, Int.toNat_natCast, hρ k id hk]

/-- **One request of the client itself.** Both registries do the same thing. -/
theorem stepped [Machine] (hrefers : Refers own r) {ρ₀ : Nat → Nat} (hρ₀ : Names ρ₀ own) :
    Stepped own shared alone r
      ⟨r.rename ρ₀, (shared.serve (r.rename ρ₀)).1.result⟩ (shared.serve (r.rename ρ₀)).2 := by
  cases hb : r.build? with
  | some built =>
      rw [Request.rename_of_build hb]
      exact m.stepped_of_build hb
  | none =>
      by_cases hread : r.isRead
      · have hread' : (r.rename ρ₀).isRead := Request.isRead_rename.trans hread
        rw [serve_of_isRead hread']
        refine m.stepped_of_silent (Event.created?_of_isRead hread' _)
          (serve_of_isRead hread) fun ρ hρ => ?_
        rw [hrefers.rename_eq hρ₀ hρ]
        refine event_rename_of_isRead hread fun h hh => ?_
        obtain ⟨k, id, hk, rfl⟩ := hrefers h hh
        rw [Int.toNat_natCast, hρ k id hk, m.engine?_eq k id hk]
      · cases r with
        | release h =>
            obtain ⟨k, id, hk, rfl⟩ := hrefers h rfl
            rw [Request.rename, Int.toNat_natCast, hρ₀ k id hk]
            exact m.stepped_of_release hk
        | createPrivate | createPublic | createRandom => cases hb
        | _ => exact absurd rfl hread

end Mirrors

/-! ## All requests of all clients -/

section AtPosition

variable {α : Type} {i j : Nat} {xs : List (Nat × α)} {a : α}

theorem atPosition_append_singleton_self :
    atPosition i (xs ++ [(i, a)]) = atPosition i xs ++ [a] := by
  simp [atPosition]

theorem atPosition_append_singleton_of_ne (hij : j ≠ i) :
    atPosition i (xs ++ [(j, a)]) = atPosition i xs := by
  simp [atPosition, hij]

end AtPosition

/-- A registry that clients share, beside one registry for each of them. -/
structure Isolated [Machine] (steps : List (Nat × Request)) (history : List (Nat × Event))
    (g : Registry) : Prop where
  mirrors : ∀ i, Mirrors (creations (atPosition i history)) g
    (serveAll {} (atPosition i steps)).2
  disjoint : ∀ i j, i ≠ j → (creations (atPosition i history)).Disjoint
    (creations (atPosition j history))
  history_eq : ∀ i ρ, Names ρ (creations (atPosition i history)) →
    atPosition i history = (serveAll {} (atPosition i steps)).1.map (Event.rename ρ)

theorem isolated_nil [Machine] : Isolated [] [] {} where
  mirrors _ := mirrors_nil
  disjoint _ _ _ := List.disjoint_nil_left _
  history_eq _ _ _ := rfl

/-- What a script refers to is there when the script gets so far. -/
theorem Mirrors.refers [Machine] {own : List Nat} {shared : Registry} {script : List Request}
    (m : Mirrors own shared (serveAll {} script).2)
    (hown : ∀ h, r.reference? = some h → ∃ id ∈ creations (serveAll {} script).1,
      h = (id : Int)) : Refers own r := by
  intro h hh
  obtain ⟨id, hid, rfl⟩ := hown h hh
  rw [(tracks_serveAll script).creations_eq, List.mem_range'_1] at hid
  have hlen := m.length_eq
  obtain ⟨k, rfl⟩ := Nat.exists_eq_add_of_le' hid.1
  exact ⟨k, own[k], List.getElem?_eq_getElem (by omega), rfl⟩

/-- **One request of any client.** For the client itself it is a request on both
registries, for each of the others it is a change behind other handles. -/
theorem Isolated.append [Machine] {steps : List (Nat × Request)} {history : List (Nat × Event)}
    {g g' : Registry} (t : Isolated steps history g) {i : Nat} {event : Event}
    (hstepped : Stepped (creations (atPosition i history)) g
      (serveAll {} (atPosition i steps)).2 r event g') :
    Isolated (steps ++ [(i, r)]) (history ++ [(i, event)]) g' := by
  obtain ⟨hmoves, hmirrors, hevent⟩ := hstepped
  have hforeign (j : Nat) (hij : i ≠ j) := hmoves.foreign (t.mirrors j) (t.disjoint i j hij)
  refine ⟨fun j => ?_, fun j k hjk => ?_, fun j ρ hρ => ?_⟩
  · by_cases hij : i = j
    · subst hij
      rw [atPosition_append_singleton_self, atPosition_append_singleton_self,
        creations_append_singleton, serveAll_append_singleton]
      exact hmirrors
    · rw [atPosition_append_singleton_of_ne hij, atPosition_append_singleton_of_ne hij]
      exact (hforeign j hij).1
  · by_cases hij : i = j
    · subst hij
      rw [atPosition_append_singleton_self, atPosition_append_singleton_of_ne hjk,
        creations_append_singleton]
      exact (hforeign k hjk).2
    · rw [atPosition_append_singleton_of_ne hij]
      by_cases hik : i = k
      · subst hik
        rw [atPosition_append_singleton_self, creations_append_singleton]
        exact (hforeign j hij).2.symm
      · rw [atPosition_append_singleton_of_ne hik]
        exact t.disjoint j k hjk
  · by_cases hij : i = j
    · subst hij
      rw [atPosition_append_singleton_self, creations_append_singleton] at hρ
      rw [atPosition_append_singleton_self, atPosition_append_singleton_self,
        serveAll_append_singleton, List.map_append, List.map_singleton,
        t.history_eq i ρ hρ.of_append, ← hevent ρ hρ, ← t.history_eq i ρ hρ.of_append]
    · rw [atPosition_append_singleton_of_ne hij] at hρ ⊢
      rw [atPosition_append_singleton_of_ne hij]
      exact t.history_eq j ρ hρ

theorem Isolated.step [Machine] {steps : List (Nat × Request)} {history : List (Nat × Event)}
    {g : Registry} (t : Isolated steps history g) {i : Nat}
    (hown : ∀ h, r.reference? = some h →
      ∃ id ∈ creations (serveAll {} (atPosition i steps)).1, h = (id : Int)) :
    Isolated (steps ++ [(i, r)]) (serveClient (history, g) (i, r)).1
      (serveClient (history, g) (i, r)).2 :=
  t.append ((t.mirrors i).stepped ((t.mirrors i).refers hown) (names_received _))

/-- **Every interleaving.** The induction is from the end, as the handles that a
request may use are those of the history before it. -/
theorem isolated_serveClients [Machine] (steps : List (Nat × Request))
    (hown : ∀ i, OwnHandles (atPosition i steps)) :
    Isolated steps (serveClients steps).1 (serveClients steps).2 := by
  induction steps using List.reverseRecOn with
  | nil => exact isolated_nil
  | append_singleton steps step ih =>
      obtain ⟨i, r⟩ := step
      have hlast := hown i
      rw [atPosition_append_singleton_self] at hlast
      rw [serveClients_append_singleton]
      refine (ih fun j => ?_).step (ownHandles_append_singleton hlast).2
      by_cases hij : i = j
      · subst hij
        exact (ownHandles_append_singleton hlast).1
      · have hother := hown j
        rwa [atPosition_append_singleton_of_ne hij] at hother

/-- The renaming that sends `k` to the `k`-th of the handles `own`, and all other
numbers beyond `bound`. -/
def naming (own : List Nat) (bound : Nat) : Nat → Nat
  | 0 => 0
  | k + 1 => own.getD k (bound + (k + 1))

theorem names_naming (own : List Nat) (bound : Nat) : Names (naming own bound) own := by
  intro k id hk
  simp [naming, hk]

theorem Mirrors.injective_naming {own : List Nat} {shared alone : Registry}
    (m : Mirrors own shared alone) : Function.Injective (naming own shared.slots.length) := by
  have hleft : Function.LeftInverse
      (fun id => if id ∈ own then own.idxOf id + 1 else id - shared.slots.length)
      (naming own shared.slots.length) := by
    intro k
    cases k with
    | zero =>
        have hzero : 0 ∉ own := fun h => (m.le_length 0 h).1.false
        simp [naming, hzero]
    | succ k =>
        rcases Nat.lt_or_ge k own.length with hlt | hge
        · simp [naming, hlt, m.nodup.idxOf_getElem]
        · have hbeyond : shared.slots.length + (k + 1) ∉ own := by
            intro h
            have := (m.le_length _ h).2
            omega
          simp [naming, hge, hbeyond]
  exact hleft.injective

/-- **Clients are isolated.** Any number of clients run their scripts on one
registry, in any interleaving, and each script uses only handles that its own
creations answered. Then each client receives the answers and faults that it
receives alone, up to an injective renaming of handles, and no handle is given to
two clients. -/
theorem clients_isolated [Machine] (script : Nat → List Request) (hown : ∀ i, OwnHandles (script i))
    (steps : List (Nat × Request)) (hsteps : ∀ i, atPosition i steps = script i) :
    serveAll {} ((serveClients steps).1.map (·.2.request)) =
      ((serveClients steps).1.map (·.2), (serveClients steps).2) ∧
    (∀ i, ∃ ρ : Nat → Nat, Function.Injective ρ ∧
      atPosition i (serveClients steps).1 = (serveAll {} (script i)).1.map (Event.rename ρ)) ∧
    ∀ i j, i ≠ j → (creations (atPosition i (serveClients steps).1)).Disjoint
      (creations (atPosition j (serveClients steps).1)) := by
  obtain rfl : (fun i => atPosition i steps) = script := funext hsteps
  have t := isolated_serveClients steps hown
  refine ⟨serveAll_serveClients steps, fun i => ?_, t.disjoint⟩
  exact ⟨_, (t.mirrors i).injective_naming, t.history_eq i _ (names_naming _ _)⟩

def scripts : Nat → List Request
  | 0 => [.createPublic [21] (.int 1) (.int 1), .createPublic [20] (.int 1) (.int 1),
      .apply 1 [5], .release 1, .apply 1 [5], .createPublic [33] (.int 1) (.int 1), .contains 1]
  | 1 => [.createPrivate [77] (.int 1) (.int (-1)) [7] [11] [8], .invert 1 [4], .release 1,
      .release 1]
  | _ => []

def interleaving : List (Nat × Request) :=
  [(1, .createPrivate [77] (.int 1) (.int (-1)) [7] [11] [8]),
    (0, .createPublic [21] (.int 1) (.int 1)), (0, .createPublic [20] (.int 1) (.int 1)),
    (1, .invert 1 [4]), (0, .apply 1 [5]), (1, .release 1), (0, .release 1),
    (0, .apply 1 [5]), (0, .createPublic [33] (.int 1) (.int 1)), (1, .release 1),
    (0, .contains 1)]

theorem clients_isolated_interleaving :
    (∀ i, OwnHandles (scripts i)) ∧ (∀ i, atPosition i interleaving = scripts i) ∧
    serveAll {} ((serveClients interleaving).1.map (·.2.request)) =
      ((serveClients interleaving).1.map (·.2), (serveClients interleaving).2) ∧
    (∀ i, ∃ ρ : Nat → Nat, Function.Injective ρ ∧
      atPosition i (serveClients interleaving).1 =
        (serveAll {} (scripts i)).1.map (Event.rename ρ)) ∧
    ∀ i j, i ≠ j → (creations (atPosition i (serveClients interleaving).1)).Disjoint
      (creations (atPosition j (serveClients interleaving).1)) := by
  have hown : ∀ i, OwnHandles (scripts i)
    | 0 => by decide +kernel
    | 1 => by decide +kernel
    | _ + 2 => nofun
  have hsteps : ∀ i, atPosition i interleaving = scripts i
    | 0 => rfl
    | 1 => rfl
    | i + 2 => by simp [atPosition, interleaving, scripts]
  exact ⟨hown, hsteps, clients_isolated scripts hown interleaving hsteps⟩

example : creations (atPosition 0 (serveClients interleaving).1) = [2, 3] := by
  decide +kernel

end Registry

end Blum
