import Mathlib
import Blum.Registry

/-!
# Handles

What one request does to a registry. A handle names a position in the list of
slots: registration appends a slot, release empties one, and nothing else
touches them. `Served` lists what a request can come to; later proofs take the
cases from there and do not open `serve` again.
-/

namespace Blum

namespace Registry

variable {g : Registry} {h h₀ : Int} {e e₀ : Engine}

/-! ## Slots -/

theorem engine?_eq_some_iff :
    g.engine? h = some e ↔ 0 < h ∧ g.slots[h.toNat - 1]? = some (some e) := by
  unfold engine? slotOf?
  by_cases hpos : 0 < h
  · simp [hpos, Option.bind_eq_some_iff]
  · simp [hpos]

theorem contains_iff : g.contains h ↔ ∃ e, g.engine? h = some e :=
  Option.isSome_iff_exists

theorem engine_eq_ok_iff : g.engine h = .ok e ↔ g.engine? h = some e := by
  unfold engine
  cases g.engine? h with
  | none => simp
  | some e' => simp

theorem engine_of_not_contains (hc : ¬ g.contains h) :
    g.engine h = .error (.unknownHandle h) := by
  have hnone : g.engine? h = none := by
    rw [← Option.not_isSome_iff_eq_none]
    exact hc
  rw [engine, hnone]

theorem engine?_of_length_lt (hlen : (g.slots.length : Int) < h) : g.engine? h = none := by
  cases hg : g.engine? h with
  | none => rfl
  | some e =>
      obtain ⟨hpos, hslot⟩ := engine?_eq_some_iff.mp hg
      obtain ⟨hlt, -⟩ := List.getElem?_eq_some_iff.mp hslot
      omega

theorem engine?_insert : (g.insert e₀).engine? h = some e ↔
    g.engine? h = some e ∨ (h = g.slots.length + 1 ∧ e₀ = e) := by
  rw [engine?_eq_some_iff, engine?_eq_some_iff, insert]
  by_cases hpos : 0 < h
  · rcases lt_trichotomy (h.toNat - 1) g.slots.length with hlt | heq | hgt
    · rw [List.getElem?_append_left hlt]
      have hne : h ≠ g.slots.length + 1 := by omega
      simp [hpos, hne]
    · have heq' : h = g.slots.length + 1 := by omega
      rw [heq, List.getElem?_concat_length, List.getElem?_eq_none (Nat.le_refl _)]
      simp [heq']
    · have hne : h ≠ g.slots.length + 1 := by omega
      rw [List.getElem?_eq_none (by simp; omega), List.getElem?_eq_none (by omega)]
      simp [hne]
  · have hne : h ≠ g.slots.length + 1 := by omega
    simp [hpos, hne]

theorem engine?_erase : (g.erase h₀).engine? h = some e ↔
    g.engine? h = some e ∧ h ≠ h₀ := by
  unfold erase slotOf?
  by_cases hpos₀ : 0 < h₀
  · rw [if_pos hpos₀, engine?_eq_some_iff, engine?_eq_some_iff]
    show 0 < h ∧ (g.slots.set (h₀.toNat - 1) none)[h.toNat - 1]? = _ ↔ _
    by_cases heq : h = h₀
    · subst heq
      rw [List.getElem?_set_self']
      cases g.slots[h.toNat - 1]? with
      | none => simp
      | some slot => simp
    · by_cases hpos : 0 < h
      · rw [List.getElem?_set_ne (by omega)]
        simp [heq]
      · simp [hpos]
  · rw [if_neg hpos₀]
    show g.engine? h = some e ↔ _
    constructor
    · intro hg
      have := (engine?_eq_some_iff.mp hg).1
      exact ⟨hg, by omega⟩
    · exact And.left

theorem engine?_insert_of_le (hle : h ≤ g.slots.length) :
    (g.insert e₀).engine? h = g.engine? h := by
  ext e
  rw [engine?_insert]
  constructor
  · rintro (hg | ⟨rfl, -⟩)
    · exact hg
    · omega
  · exact Or.inl

theorem engine?_insert_self : (g.insert e).engine? (g.slots.length + 1) = some e :=
  engine?_insert.mpr (Or.inr ⟨rfl, rfl⟩)

theorem engine?_erase_of_ne (hne : h ≠ h₀) : (g.erase h₀).engine? h = g.engine? h := by
  ext e
  rw [engine?_erase]
  exact and_iff_left hne

theorem engine?_erase_self : (g.erase h).engine? h = none := by
  rw [Option.eq_none_iff_forall_ne_some]
  intro e he
  exact (engine?_erase.mp he).2 rfl

theorem engine?_erase_of_none (hnone : g.engine? h = none) :
    (g.erase h₀).engine? h = none := by
  rw [Option.eq_none_iff_forall_ne_some]
  intro e he
  cases hnone.symm.trans (engine?_erase.mp he).1

@[simp]
theorem length_insert : (g.insert e).slots.length = g.slots.length + 1 := by
  simp [insert]

@[simp]
theorem length_erase : (g.erase h).slots.length = g.slots.length := by
  unfold erase
  cases slotOf? h with
  | none => rfl
  | some i => simp

@[simp]
theorem size_insert : (g.insert e).size = g.size + 1 := by
  simp [size, insert]

theorem size_erase (hc : g.contains h) : (g.erase h).size + 1 = g.size := by
  obtain ⟨e, he⟩ := contains_iff.mp hc
  obtain ⟨hpos, hslot⟩ := engine?_eq_some_iff.mp he
  obtain ⟨hlt, hget⟩ := List.getElem?_eq_some_iff.mp hslot
  have hmem : some e ∈ g.slots := hget ▸ List.getElem_mem hlt
  have hcount : 0 < g.slots.countP Option.isSome := List.countP_pos_iff.mpr ⟨_, hmem, rfl⟩
  rw [erase, slotOf?, if_pos hpos]
  show (g.slots.set (h.toNat - 1) none).countP Option.isSome + 1 = _
  rw [List.countP_set hlt, hget, size]
  simp
  omega

end Registry

/-! ## Requests -/

namespace Request

/-- The engine that a creation builds, or the fault that keeps it from
building one. -/
def build? [Machine] : Request → Option (Except Fault Engine)
  | .createPrivate n r s p q u => some (Engine.ofRequest
      (.priv (operand n) r s (operand p) (operand q) (operand u)))
  | .createPublic n r s => some (Engine.ofRequest (.pub (operand n) r s))
  | .createRandom bits source => some (Engine.generate { bits } { source }).1
  | _ => none

/-- The handle that has to be known for a request to succeed. -/
def handle? : Request → Option Int
  | .apply h _ | .invert h _ | .accepts h _ => some h
  | .modulus h | .engine h | .release h => some h
  | _ => none

def isRead : Request → Bool
  | .apply .. | .invert .. | .accepts .. => true
  | .modulus _ | .engine _ | .contains _ => true
  | _ => false

theorem build?_of_isRead [Machine] {r : Request} (hr : r.isRead) : r.build? = none := by
  cases r with
  | createPrivate | createPublic | createRandom => cases hr
  | _ => rfl

end Request

namespace Registry

/-! ## One request -/

/-- What a request can come to: the answer and the registry afterwards. -/
inductive Served [Machine] (g : Registry) : Request → Except Fault Answer → Registry → Prop
  | created {r : Request} {e : Engine} (build : r.build? = some (.ok e)) :
      Served g r (.ok (.handle (g.slots.length + 1))) (g.insert e)
  | notCreated {r : Request} {f : Fault} (build : r.build? = some (.error f)) :
      Served g r (.error f) g
  | released {h : Int} (known : g.contains h) :
      Served g (.release h) (.ok .released) (g.erase h)
  | notReleased {h : Int} (unknown : ¬ g.contains h) :
      Served g (.release h) (.error (.unknownHandle h)) g
  | read {r : Request} {result : Except Fault Answer} (isRead : r.isRead) :
      Served g r result g

variable [Machine] {g : Registry} {r : Request} {h : Int}

/-- A creation answers the next handle, or fails as the building does. -/
theorem serve_of_build {built : Except Fault Engine} (hb : r.build? = some built) :
    (g.serve r).1.result = built.map (fun _ => .handle (g.slots.length + 1)) ∧
      (g.serve r).2 = built.toOption.elim g g.insert := by
  cases r with
  | createPrivate n r s p q u =>
      obtain rfl := Option.some.inj hb
      simp only [serve, perform, createPrivate, Stateful.bind_apply, Stateful.lift_apply]
      cases Engine.ofRequest
        (.priv (operand n) r s (operand p) (operand q) (operand u)) with
      | ok e => exact ⟨rfl, rfl⟩
      | error f => exact ⟨rfl, rfl⟩
  | createPublic n r s =>
      obtain rfl := Option.some.inj hb
      simp only [serve, perform, createPublic, Stateful.bind_apply, Stateful.lift_apply]
      cases Engine.ofRequest (.pub (operand n) r s) with
      | ok e => exact ⟨rfl, rfl⟩
      | error f => exact ⟨rfl, rfl⟩
  | createRandom bits source =>
      obtain rfl := Option.some.inj hb
      simp only [serve, perform, createRandom, Stateful.bind_apply, Request.source]
      rcases Engine.generate { bits } { source } with ⟨e | f, w⟩
      · exact ⟨rfl, rfl⟩
      · exact ⟨rfl, rfl⟩
  | _ => cases hb

theorem serve_of_perform {α : Type} {d : Except Fault α} {f : α → Answer}
    (hp : g.perform r = (liftM d >>= fun a => pure (f a, g))) :
    g.serve r = (⟨d.map f, []⟩, g) := by
  rw [serve, hp, Stateful.bind_apply, Stateful.lift_apply]
  cases d with
  | ok a => rfl
  | error e => rfl

theorem serve_of_isRead (hr : r.isRead) : (g.serve r).2 = g := by
  cases r with
  | apply h x => rw [serve_of_perform (d := g.apply h x) rfl]
  | invert h y => rw [serve_of_perform (d := g.invert h y) rfl]
  | accepts h x => rw [serve_of_perform (d := g.accepts h x) rfl]
  | modulus h => rw [serve_of_perform (d := g.modulus h) rfl]
  | engine h => rw [serve_of_perform (d := g.engine h) rfl]
  | contains h => rfl
  | _ => cases hr

/-- **Unknown handles.** Whatever else a request says, it fails on a handle
without an engine, writes no record and leaves the registry alone. -/
theorem serve_of_not_contains (hr : r.handle? = some h) (hc : ¬ g.contains h) :
    g.serve r = (⟨.error (.unknownHandle h), []⟩, g) := by
  have he := engine_of_not_contains hc
  cases r with
  | apply h' x =>
      obtain rfl := Option.some.inj hr
      rw [serve_of_perform (d := g.apply h' x) rfl, apply, he]
      rfl
  | invert h' y =>
      obtain rfl := Option.some.inj hr
      rw [serve_of_perform (d := g.invert h' y) rfl, invert, he]
      rfl
  | accepts h' x =>
      obtain rfl := Option.some.inj hr
      rw [serve_of_perform (d := g.accepts h' x) rfl, accepts, he]
      rfl
  | modulus h' =>
      obtain rfl := Option.some.inj hr
      rw [serve_of_perform (d := g.modulus h') rfl, modulus, he]
      rfl
  | engine h' =>
      obtain rfl := Option.some.inj hr
      rw [serve_of_perform (d := g.engine h') rfl, he]
      rfl
  | release h' =>
      obtain rfl := Option.some.inj hr
      rw [serve, perform, release, he]
      rfl
  | _ => cases hr

omit [Machine] in
theorem release_of_contains (hc : g.contains h) (w : Workspace) :
    g.release h w = (.ok (g.erase h), { w with log := w.log.push (.released h.toNat) }) := by
  obtain ⟨e, he⟩ := contains_iff.mp hc
  rw [release, engine_eq_ok_iff.mpr he]
  rfl

theorem serve_release (hc : g.contains h) :
    (g.serve (.release h)).1.result = .ok .released ∧
      (g.serve (.release h)).2 = g.erase h := by
  simp only [serve, perform, Stateful.bind_apply, release_of_contains hc]
  exact ⟨rfl, rfl⟩

/-- **A request does one of these things.** -/
theorem served_serve (g : Registry) (r : Request) :
    Served g r (g.serve r).1.result (g.serve r).2 := by
  cases hb : r.build? with
  | some built =>
      obtain ⟨hresult, hg⟩ := serve_of_build (g := g) hb
      rw [hresult, hg]
      cases built with
      | ok e => exact .created hb
      | error f => exact .notCreated hb
  | none =>
      by_cases hr : r.isRead
      · rw [serve_of_isRead hr]
        exact .read hr
      · cases r with
        | release h =>
            by_cases hc : g.contains h
            · obtain ⟨hresult, hg⟩ := serve_release hc
              rw [hresult, hg]
              exact .released hc
            · rw [serve_of_not_contains rfl hc]
              exact .notReleased hc
        | createPrivate | createPublic | createRandom => cases hb
        | _ => exact absurd rfl hr

end Registry

end Blum
