import Mathlib
import Blum.Proofs.ByteStrings
import Blum.Proofs.EngineFaults
import Blum.Proofs.Handles

/-!
# The byte boundary

Behind a handle an engine works with integers, and in front of it callers see
byte strings. Nothing gets lost in between: an operand matters through its
number only, every answer is the shortest string of a number that the engine
returned, and no answer is longer than the modulus. Since engines return
nothing negative, writing the answer cannot fail. The inversion law therefore
holds of byte strings up to leading zeros. All this is told of a registry; a table
of handles serves its callers as the registry that it represents.
-/

namespace Blum

namespace Engine

open PrivateKey

variable {e : Engine} {x z : Int}

/-! ## What engines return -/

theorem apply_bounds (h : e.apply x = .ok z) : 0 ≤ z ∧ z < e.modulus := by
  have hpos := e.modulus_pos
  rw [apply_eq] at h
  split_ifs at h
  cases h
  exact ⟨Int.emod_nonneg _ hpos.ne', Int.emod_lt_of_pos _ hpos⟩

theorem invert_bounds (h : e.invert x = .ok z) : 0 ≤ z ∧ z < e.modulus := by
  obtain ⟨key, rfl, hx, rfl⟩ := exists_key_of_invert h
  obtain ⟨h₀, hn, -⟩ := combinedRoot_mem_roots hx
  exact ⟨h₀, hn⟩

theorem mem_squares_of_accepts {key : PrivateKey} (h : key.engine.accepts x = .ok true) :
    x ∈ key.squares := by
  by_contra hx
  cases (accepts_of_check_notValid (check_of_not_mem_squares hx)).symm.trans h

end Engine

namespace Registry

open Bytes PrivateKey

variable {g : Registry} {h : Int} {e : Engine}

/-! ## Operations behind a handle -/

theorem bind_encode {r : Except Fault Int} (hr : ∀ z, r = .ok z → 0 ≤ z) :
    (r >>= encode) = r.map fun z => encodeNat z.toNat := by
  cases r with
  | error f => rfl
  | ok z => exact encode_of_nonneg (hr z rfl)

section Known

variable (he : g.engine h = .ok e)
include he

theorem apply_of_engine (x : List UInt8) :
    g.apply h x = (e.apply (decode x)).map fun z => encodeNat z.toNat := by
  rw [apply, he]
  exact bind_encode fun z hz => (Engine.apply_bounds hz).1

theorem invert_of_engine (x : List UInt8) :
    g.invert h x = (e.invert (decode x)).map fun z => encodeNat z.toNat := by
  rw [invert, he]
  exact bind_encode fun z hz => (Engine.invert_bounds hz).1

theorem accepts_of_engine (x : List UInt8) : g.accepts h x = e.accepts (decode x) := by
  rw [accepts, he]
  rfl

theorem modulus_of_engine : g.modulus h = .ok (encodeNat e.modulus.toNat) := by
  rw [modulus, he]
  exact encode_of_nonneg e.modulus_pos.le

end Known

theorem eq_encodeNat_of_map_eq_ok {r : Except Fault Int} {b : List UInt8}
    (h : r.map (fun z => encodeNat z.toNat) = .ok b) :
    ∃ z, r = .ok z ∧ b = encodeNat z.toNat := by
  cases r with
  | error f => cases h
  | ok z => exact ⟨z, rfl, (Except.ok.inj h).symm⟩

/-! ## The boundary -/

/-- A byte string as it leaves the boundary of an engine: the shortest string of
a number below the modulus. -/
structure Outgoing (e : Engine) (b : List UInt8) : Prop where
  minimal : Minimal b
  lt : (decode b : Int) < e.modulus
  length_le : b.length ≤ (encodeNat e.modulus.toNat).length

theorem outgoing_encodeNat {z : Int} (h : 0 ≤ z ∧ z < e.modulus) :
    Outgoing e (encodeNat z.toNat) where
  minimal := minimal_encodeNat _
  lt := by
    rw [decode_encodeNat]
    omega
  length_le := length_encodeNat_mono (by omega)

/-- The engine `e` is behind the handle `h`, and bytes are all that is between
it and its callers. -/
structure Faithful (g : Registry) (h : Int) (e : Engine) : Prop where
  /-- An operand counts through its number, and only the engine can fail. -/
  apply_eq : ∀ x, g.apply h x = (e.apply (decode x)).map fun z => encodeNat z.toNat
  invert_eq : ∀ x, g.invert h x = (e.invert (decode x)).map fun z => encodeNat z.toNat
  accepts_eq : ∀ x, g.accepts h x = e.accepts (decode x)
  /-- Leading zeros change neither an answer nor a fault. -/
  strip_eq : ∀ x x', strip x = strip x' → g.apply h x = g.apply h x' ∧
    g.invert h x = g.invert h x' ∧ g.accepts h x = g.accepts h x'
  outgoing : ∀ x b, g.apply h x = .ok b ∨ g.invert h x = .ok b → Outgoing e b
  modulus : ∃ m, g.modulus h = .ok m ∧ Minimal m ∧ (decode m : Int) = e.modulus ∧
    ∀ b, Outgoing e b → b.length ≤ m.length
  no_encoding_fault : ∀ x, g.apply h x ≠ .error .negativeEncoding ∧
    g.invert h x ≠ .error .negativeEncoding ∧ g.modulus h ≠ .error .negativeEncoding
  /-- The inversion law for byte strings. -/
  apply_invert : ∀ key : PrivateKey, e = key.engine → ∀ b, g.accepts h b = .ok true →
    ∃ z, g.invert h b = .ok z ∧ g.apply h z = .ok (strip b)
  invert_apply : ∀ key : PrivateKey, e = key.engine → ∀ b, (decode b : Int) ∈ key.roots →
    ∃ z, g.apply h b = .ok z ∧ g.invert h z = .ok (strip b)

/-- A square that crosses the boundary comes back without its leading zeros. -/
theorem apply_of_invert {key : PrivateKey} (he : g.engine h = .ok key.engine)
    {b : List UInt8} (hb : (decode b : Int) ∈ key.squares) :
    ∃ z, g.invert h b = .ok z ∧ g.apply h z = .ok (strip b) := by
  obtain ⟨h₀, hn, -⟩ := combinedRoot_mem_roots hb
  refine ⟨encodeNat (key.combinedRoot (decode b)).toNat, ?_, ?_⟩
  · rw [invert_of_engine he, Engine.invert_of_mem_squares hb]
    rfl
  · rw [apply_of_engine he, decode_encodeNat, Int.toNat_of_nonneg h₀,
      Engine.apply_of_invert_ok (Engine.invert_of_mem_squares hb), ← encodeNat_decode]
    rfl

theorem invert_of_apply {key : PrivateKey} (he : g.engine h = .ok key.engine)
    {b : List UInt8} (hb : (decode b : Int) ∈ key.roots) :
    ∃ z, g.apply h b = .ok z ∧ g.invert h z = .ok (strip b) := by
  have hsq := sq_mem_squares hb
  refine ⟨encodeNat ((decode b : Int) ^ 2 % key.n).toNat, ?_, ?_⟩
  · rw [apply_of_engine he, Engine.apply_of_lt hb.1 hb.2.1]
    rfl
  · rw [invert_of_engine he, decode_encodeNat, Int.toNat_of_nonneg hsq.1,
      Engine.invert_of_mem_squares hsq, combinedRoot_of_sq hb, ← encodeNat_decode]
    rfl

theorem faithful_of_engine (he : g.engine h = .ok e) : Faithful g h e where
  apply_eq := apply_of_engine he
  invert_eq := invert_of_engine he
  accepts_eq := accepts_of_engine he
  strip_eq x x' hx := by
    have hdecode := decode_eq_decode_iff.mpr hx
    simp only [apply_of_engine he, invert_of_engine he, accepts_of_engine he, hdecode,
      and_self]
  outgoing x b := by
    rintro (hb | hb)
    · rw [apply_of_engine he] at hb
      obtain ⟨z, hz, rfl⟩ := eq_encodeNat_of_map_eq_ok hb
      exact outgoing_encodeNat (Engine.apply_bounds hz)
    · rw [invert_of_engine he] at hb
      obtain ⟨z, hz, rfl⟩ := eq_encodeNat_of_map_eq_ok hb
      exact outgoing_encodeNat (Engine.invert_bounds hz)
  modulus := by
    refine ⟨_, modulus_of_engine he, minimal_encodeNat _, ?_, fun b hb => hb.length_le⟩
    rw [decode_encodeNat, Int.toNat_of_nonneg e.modulus_pos.le]
  no_encoding_fault x := by
    rw [apply_of_engine he, invert_of_engine he, modulus_of_engine he]
    exact ⟨((e.failsAsEngine_apply _).map _) _, ((e.failsAsEngine_invert _).map _) _, nofun⟩
  apply_invert key hkey b hb := by
    subst hkey
    rw [accepts_of_engine he] at hb
    exact apply_of_invert he (Engine.mem_squares_of_accepts hb)
  invert_apply key hkey b hb := by
    subst hkey
    exact invert_of_apply he hb

/-! ## Creation from bytes -/

/-- A creation follows the direct construction of its engine: it answers the
next handle with that engine behind it, or fails alike and changes nothing. -/
structure Creates [Machine] (g : Registry) (r : Request) (built : Except Fault Engine) : Prop where
  result : (g.serve r).1.result = built.map fun _ => .handle (g.slots.length + 1)
  engine : ∀ e, built = .ok e → (g.serve r).2.engine (g.slots.length + 1) = .ok e
  unchanged : ∀ f, built = .error f → (g.serve r).2 = g

theorem creates_of_build [Machine] {r : Request} {built : Except Fault Engine}
    (hb : r.build? = some built) : Creates g r built where
  result := (serve_of_build hb).1
  engine e he := by
    subst he
    rw [(serve_of_build hb).2, engine_eq_ok_iff]
    exact engine?_insert.mpr (Or.inr ⟨rfl, rfl⟩)
  unchanged f hf := by
    subst hf
    exact (serve_of_build hb).2

theorem operand_of_encodes {data : List UInt8} {n : Nat} (h : Encodes data n) :
    operand data = .int n := by
  rw [operand, decode_of_encodes h]

/-- **The byte boundary is faithful.** Whatever state a registry is in, every
known handle serves its engine through bytes as `Faithful` says; and whatever
byte strings stand for the parts of a key, with or without leading zeros, a
creation succeeds exactly if the numbers make a key, with that key behind the
new handle. -/
theorem boundary_faithful [Machine] (g : Registry) :
    (∀ h, g.contains h → ∃ e, g.engine h = .ok e ∧ Faithful g h e) ∧
    (∀ (n p q u : List UInt8) (n' p' q' u' : Nat) (r s : Argument),
      Encodes n n' → Encodes p p' → Encodes q q' → Encodes u u' →
      Creates g (.createPrivate n r s p q u)
        (Engine.ofRequest (.priv (.int n') r s (.int p') (.int q') (.int u')))) ∧
    ∀ (n : List UInt8) (n' : Nat) (r s : Argument), Encodes n n' →
      Creates g (.createPublic n r s) (Engine.ofRequest (.pub (.int n') r s)) := by
  refine ⟨fun h hc => ?_, fun n p q u n' p' q' u' r s hn hp hq hu => ?_,
    fun n n' r s hn => ?_⟩
  · obtain ⟨e, he⟩ := contains_iff.mp hc
    have he' := engine_eq_ok_iff.mpr he
    exact ⟨e, he', faithful_of_engine he'⟩
  · rw [← operand_of_encodes hn, ← operand_of_encodes hp, ← operand_of_encodes hq,
      ← operand_of_encodes hu]
    exact creates_of_build rfl
  · rw [← operand_of_encodes hn]
    exact creates_of_build rfl

/-- The key of 7 and 11 is behind the handle 1, where 4 and its root 75 cross the boundary
and come back without their leading zeros, and it is created from byte strings with leading
zeros. -/
theorem boundary_faithful_seven_eleven :
    (insert {} Engine.sevenEleven.engine).contains 1 = true ∧
      (∃ e, (insert {} Engine.sevenEleven.engine).engine 1 = .ok e ∧
        Faithful (insert {} Engine.sevenEleven.engine) 1 e) ∧
      (insert {} Engine.sevenEleven.engine).invert 1 [0, 4] = .ok [75] ∧
      (insert {} Engine.sevenEleven.engine).apply 1 [75] = .ok [4] ∧
      (insert {} Engine.sevenEleven.engine).apply 1 [0, 75] = .ok [4] ∧
      (insert {} Engine.sevenEleven.engine).invert 1 [4] = .ok [75] ∧
      Encodes [0, 77] 77 ∧ Encodes [7] 7 ∧ Encodes [0, 0, 11] 11 ∧ Encodes [8] 8 ∧
      Creates {} (.createPrivate [0, 77] (.int 1) (.int (-1)) [7] [0, 0, 11] [8])
        (Engine.ofRequest (.priv (.int 77) (.int 1) (.int (-1)) (.int 7) (.int 11)
          (.int 8))) ∧
      Creates {} (.createPublic [0, 77] (.int 1) (.int 1))
        (Engine.ofRequest (.pub (.int 77) (.int 1) (.int 1))) := by
  have hc : (insert {} Engine.sevenEleven.engine).contains 1 = true := rfl
  have h77 : Encodes [0, 77] 77 := ⟨1, by decide +kernel⟩
  have h7 : Encodes [7] 7 := ⟨0, by decide +kernel⟩
  have h11 : Encodes [0, 0, 11] 11 := ⟨2, by decide +kernel⟩
  have h8 : Encodes [8] 8 := ⟨0, by decide +kernel⟩
  obtain ⟨-, hpriv, hpub⟩ := boundary_faithful {}
  obtain ⟨e, he, hfaithful⟩ := (boundary_faithful _).1 1 hc
  obtain rfl : Engine.sevenEleven.engine = e := Except.ok.inj he
  have haccepts : (insert {} Engine.sevenEleven.engine).accepts 1 [0, 4] = .ok true := by
    decide +kernel
  have hroot : (decode [0, 75] : Int) ∈ Engine.sevenEleven.roots :=
    ⟨by decide +kernel, by decide +kernel, by decide +kernel, by decide +kernel⟩
  obtain ⟨z, hinvert, happly⟩ := hfaithful.apply_invert _ rfl [0, 4] haccepts
  obtain ⟨z', happly', hinvert'⟩ := hfaithful.invert_apply _ rfl [0, 75] hroot
  have hz : (insert {} Engine.sevenEleven.engine).invert 1 [0, 4] = .ok [75] := by
    decide +kernel
  have hz' : (insert {} Engine.sevenEleven.engine).apply 1 [0, 75] = .ok [4] := by
    decide +kernel
  obtain rfl := Except.ok.inj (hinvert.symm.trans hz)
  obtain rfl := Except.ok.inj (happly'.symm.trans hz')
  exact ⟨hc, ⟨_, he, hfaithful⟩, hinvert, happly, happly', hinvert', h77, h7, h11, h8,
    hpriv _ _ _ _ _ _ _ _ _ _ h77 h7 h11 h8, hpub _ _ _ _ h77⟩

end Registry

end Blum
