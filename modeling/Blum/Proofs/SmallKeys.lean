import Mathlib
import Blum.Proofs.Generation
import Blum.Proofs.Outcomes
import Blum.Proofs.Sampling
import Blum.Proofs.TrialDivision

/-!
# Small keys

Up to 66 bits both factors stay below the square of the bound of the table, so
trial division alone decides what is prime. No choice of random bytes, not even
one that is made against the primality test, can then produce a key whose
factors are not prime, and with prime factors every random element can be
inverted.
-/

namespace Blum

open Stateful

namespace Settings

/-- Settings that passed their checks and ask for 66 bits at most. The size and
the bounds may be numbers of any type. -/
structure Small (settings : Settings) : Prop where
  check : settings.check = .ok ()
  below : settings.bits.isBelow 67 = .ok true

/-- The size of a factor of a small key, unless the size of the modulus is no
integer and cannot be halved. -/
def HalfSize (size : Except Fault Int) : Prop :=
  size = .error .operandType ∨ ∃ i, size = .ok i ∧ 2 ≤ i ∧ i ≤ 33

namespace Small

variable {settings : Settings} (h : settings.Small)
include h

theorem bits_cases : settings.bits.count = .error .operandType ∨
    ∃ b, settings.bits.count = .ok b ∧ 16 ≤ b ∧ b < 67 := by
  rcases hb : settings.bits.count? with _ | b
  · left
    rw [Argument.count, hb]
  · right
    have hlo := le_of_requireAtLeast hb (of_check h.check).1
    have hhi := h.below
    rw [isBelow_eq_ok hb, Except.ok.injEq, decide_eq_true_eq] at hhi
    exact ⟨b, count_eq_ok hb, hlo, hhi⟩

theorem halfSize_firstBits : HalfSize settings.firstBits := by
  rcases h.bits_cases with hb | ⟨b, hb, hlo, hhi⟩
  · left
    rw [firstBits, hb]
    rfl
  · right
    refine ⟨b / 2, ?_, by omega, by omega⟩
    rw [firstBits, hb]
    rfl

theorem halfSize_secondBits : HalfSize settings.secondBits := by
  rcases h.bits_cases with hb | ⟨b, hb, hlo, hhi⟩
  · left
    rw [secondBits, hb]
    rfl
  · right
    refine ⟨b - b / 2, ?_, by omega, by omega⟩
    rw [secondBits, firstBits, hb]
    rfl

end Small

end Settings

namespace Generate

def NoMismatch : Fault → Prop
  | .mismatch _ => False
  | _ => True

theorem NoMismatch.kind_ne {f : Fault} (h : NoMismatch f) : f.kind ≠ .keyMismatch := by
  cases f with
  | mismatch why => exact h.elim
  | _ => simp [Fault.kind]

/-- What the searches for the factors are to find. -/
def BlumPrime (c : Nat) : Prop := c.Prime ∧ c % 4 = 3

theorem ensures_halfSize {size : Except Fault Int} (h : Settings.HalfSize size) :
    Ensures (liftM size : Logged Int) (fun i => 2 ≤ i ∧ i ≤ 33) NoMismatch := by
  rcases h with rfl | ⟨i, rfl, hi⟩
  · exact ensures_throw trivial
  · exact ensures_pure hi

theorem ensures_count (a : Argument) :
    Ensures (liftM a.count : Logged Int) (fun _ => True) NoMismatch := by
  unfold Argument.count
  split
  · exact ensures_pure trivial
  · exact ensures_throw trivial

section Search

variable {settings : Settings} {r : Nat} (hrate : Prime.rounds settings.errorRate = .ok r)
include hrate

/-- **A small search finds primes only.** -/
theorem ensures_searchFrom {bits : Nat} (h2 : 2 ≤ bits) (h33 : bits ≤ 33) (left k : Nat) :
    Ensures (searchFrom bits settings left k) BlumPrime NoMismatch := by
  refine ensures_searchFrom_of_test ((yields_candidate h2).ensures trivial) ?_ trivial left k
  intro c hc
  -- a candidate of at most 33 bits is below the square of 104730
  have hlt : c < (Prime.tableBound + 1) ^ 2 := by
    calc c < 2 ^ bits := hc.lt h2
      _ ≤ 2 ^ 33 := Nat.pow_le_pow_right (by decide) h33
      _ < (Prime.tableBound + 1) ^ 2 := by decide
  have htest := (Prime.yields_isPrime_of_lt hrate hlt).ensures (F := NoMismatch) trivial
  exact htest.mono (fun answer hanswer htrue => ⟨hanswer htrue, hc.mod_four⟩) fun _ h => h

theorem ensures_search [Machine] {bits : Int} (h2 : 2 ≤ bits) (h33 : bits ≤ 33) :
    Ensures (search bits settings) BlumPrime NoMismatch := by
  have hshift : ¬ maxShift < bits - 2 := by
    unfold maxShift
    omega
  have hmemory : ¬ (Machine.memory : Int) < shiftSize (bits - 2) := by
    have := Machine.roomy
    unfold shiftSize
    omega
  unfold search
  rw [if_neg (by omega), if_neg hshift, if_neg hmemory]
  refine (ensures_count _).bind fun attempts _ => ?_
  exact ensures_searchFrom hrate (by omega) (by omega) _ _

theorem ensures_searchOther [Machine] (hsmall : settings.Small) (p left : Nat) :
    Ensures (searchOther p settings left) (fun q => BlumPrime q ∧ q ≠ p) NoMismatch :=
  ensures_searchOther_of_search (ensures_halfSize hsmall.halfSize_secondBits)
    (fun _ hj => ensures_search hrate hj.1 hj.2) trivial left

end Search

/-- **Small keys have prime factors.** Whatever the source yields, a key that
comes out has them, and none is turned away for what its factors are. -/
theorem ensures_privateKey [Machine] {settings : Settings} (hsmall : settings.Small) :
    Ensures (privateKey settings) (fun key => key.p.toNat.Prime ∧ key.q.toNat.Prime)
      NoMismatch := by
  obtain ⟨r, hrate⟩ := Settings.rounds_of_insideUnit (Settings.of_check hsmall.check).2.2.2
  unfold privateKey
  refine (ensures_halfSize hsmall.halfSize_firstBits).bind fun i hi => ?_
  refine (ensures_search hrate hi.1 hi.2).bind fun p hp => ?_
  refine (ensures_count _).bind fun attempts _ => ?_
  refine (ensures_searchOther hrate hsmall p _).bind fun q hq => ?_
  obtain ⟨key, hkey, hkp, hkq⟩ :=
    PrivateKey.ofFactors_of_primes hp.1 hq.1.1 hq.2.symm hp.2 hq.1.2 .plus .plus
  -- primes have no common factor, so the checks on the key cannot fail
  have hlift : Ensures (liftM (PrivateKey.ofFactors p q 1 1) : Logged PrivateKey)
      (· = key) NoMismatch := by
    rw [show PrivateKey.ofFactors p q 1 1 = .ok key from hkey]
    exact ensures_pure rfl
  refine hlift.bind fun key' hkey' => (Logged.ensures_record _).bind fun _ _ => ?_
  refine ensures_pure ?_
  rw [hkey', hkp, hkq, Int.toNat_natCast, Int.toNat_natCast]
  exact ⟨hp.1, hq.1.1⟩

end Generate

namespace Engine

open PrivateKey

/-- Inversion undoes squaring on the random elements of a key with prime
factors. -/
theorem roundTrip_of_randomElement {key : PrivateKey} (hp : key.p.toNat.Prime)
    (hq : key.q.toNat.Prime) {s s' : Source} {y : Int}
    (h : key.engine.randomElement s = (.ok y, s')) :
    ∃ x, key.engine.invert y = .ok x ∧ key.engine.apply x = .ok y ∧
      key.engine.applyThenInvert x = .ok x := by
  have : Fact key.p.toNat.Prime := ⟨hp⟩
  have : Fact key.q.toNat.Prime := ⟨hq⟩
  have hmem : y ∈ unitSquares key.n :=
    ((yields_randomElement key.engine).ensures (F := fun _ => True) trivial).of_ok h
  rw [← squares_eq_unitSquares] at hmem
  have hinvert := invert_of_mem_squares hmem
  exact ⟨_, hinvert, apply_of_invert_ok hinvert, applyThenInvert_of_invert_ok hinvert⟩

/-- **Small keys work, whatever the source yields.** With settings for 66 bits
at most, key generation never turns a key away, the factors of the engine that
comes out are prime, and each random element of it is inverted to a root that
squares to it and is found again from its square. -/
theorem small_keys_correct [Machine] {settings : Settings} (hsmall : settings.Small) :
    (∀ w f w', Generate.privateKey settings w = (.error f, w') →
      f.kind ≠ .keyMismatch) ∧
    ∀ w e w', generate settings w = (.ok e, w') →
      ∃ key : PrivateKey, e = key.engine ∧ key.p.toNat.Prime ∧ key.q.toNat.Prime ∧
        ∀ s y s', e.randomElement s = (.ok y, s') →
          ∃ x, e.invert y = .ok x ∧ e.apply x = .ok y ∧ e.applyThenInvert x = .ok x := by
  have hkey := Generate.ensures_privateKey hsmall
  refine ⟨fun w f w' h => (hkey.of_error h).kind_ne, fun w e w' h => ?_⟩
  rw [generate, hsmall.check] at h
  change (Generate.privateKey settings >>= fun key =>
    (pure key.engine : Logged Engine)) w = _ at h
  rw [bind_apply] at h
  rcases hout : Generate.privateKey settings w with ⟨f | key, w₁⟩ <;> rw [hout] at h
  · cases h
  · cases h
    obtain ⟨hp, hq⟩ := hkey.of_ok hout
    exact ⟨key, rfl, hp, hq, fun s y s' => roundTrip_of_randomElement hp hq⟩

def oneElement : Source :=
  { Generate.twoPrimes with byteLimit := 4, callLimit := 5 }

/-- Sixteen bits are enough: the candidates 199 and 211 make an engine, and the element that
it draws next is inverted. -/
theorem small_keys_correct_sixteen_bits :
    Settings.Small { bits := .int 16 } ∧
      ∃ e w', generate { bits := .int 16 } { source := oneElement } = (.ok e, w') ∧
        e.modulus = 199 * 211 ∧
        (∀ s y s', e.randomElement s = (.ok y, s') →
          ∃ x, e.invert y = .ok x ∧ e.apply x = .ok y ∧ e.applyThenInvert x = .ok x) ∧
        ∃ s' x, e.randomElement w'.source = (.ok 24732, s') ∧
          e.invert 24732 = .ok x ∧ e.apply x = .ok 24732 ∧ e.applyThenInvert x = .ok x := by
  have hsmall : Settings.Small { bits := .int 16 } := ⟨rfl, rfl⟩
  have hrun : ((generate { bits := .int 16 } >>= fun e =>
      (liftM e.randomElement : Logged Int) >>= fun y => pure (e.modulus, y))
        { source := oneElement }).1 = .ok (199 * 211, 24732) := by
    decide +kernel
  obtain ⟨e, w', hout, hrest⟩ := ok_of_bind hrun
  obtain ⟨y, w₁, hdraw, hpair⟩ := ok_of_bind hrest
  obtain ⟨hmodulus, rfl⟩ := Prod.mk.inj (Except.ok.inj hpair)
  rw [Logged.ofDraw_apply] at hdraw
  obtain ⟨hresult, -⟩ := Prod.mk.inj hdraw
  obtain ⟨key, rfl, -, -, hround⟩ := (small_keys_correct hsmall).2 _ _ _ hout
  have hdraw' : key.engine.randomElement w'.source =
      (.ok 24732, (key.engine.randomElement w'.source).2) := Prod.ext hresult rfl
  obtain ⟨x, hx⟩ := hround _ _ _ hdraw'
  exact ⟨hsmall, _, w', hout, hmodulus, hround, _, x, hdraw', hx⟩

end Engine

end Blum
