import Mathlib
import Blum.Proofs.Budgets
import Blum.Proofs.Factors
import Blum.Proofs.Search

/-!
# How key generation ends

With settings that passed their checks there are few ways out. The two
searches end as `SearchEnds` and `OtherEnds` tell. What they find has the
shape of a candidate, so every check on the key but one holds by construction:
only a common factor of the two candidates can still turn the key away. Primes
have none, so this takes a composite candidate that passed the primality test.

Settings bound the size of the modulus from below only. A size whose mask
cannot be made is refused by the machine before a prime is looked for.
-/

namespace Blum

namespace Settings

/-! ## Checked settings -/

/-- Settings that passed their checks, and the integers that they count for. -/
structure Checked (settings : Settings) (b k m : Int) : Prop where
  check : settings.check = .ok ()
  bits : settings.bits.count? = some b
  primeAttempts : settings.primeAttempts.count? = some k
  pairAttempts : settings.pairAttempts.count? = some m

theorem count_eq_ok {a : Argument} {i : Int} (h : a.count? = some i) :
    a.count = .ok i := by
  rw [Argument.count, h]

theorem isBelow_eq_ok {bound : Nat} {a : Argument} {i : Int} (hi : a.count? = some i) :
    a.isBelow bound = .ok (decide (i < (bound : Int))) := by
  cases a with
  | int j =>
      obtain rfl := Option.some.inj hi
      rfl
  | bool j =>
      obtain rfl := Option.some.inj hi
      rfl
  | _ => cases hi

theorem le_of_requireAtLeast {bound : Nat} {a : Argument} {which : BadSetting} {i : Int}
    (hi : a.count? = some i) (h : requireAtLeast bound a which = .ok ()) :
    (bound : Int) ≤ i := by
  by_contra hlt
  have hthrow : requireAtLeast bound a which = .error (.badSetting which) := by
    rw [requireAtLeast, isBelow_eq_ok hi, decide_eq_true (not_le.mp hlt)]
    rfl
  cases hthrow.symm.trans h

theorem rounds_of_insideUnit {a : Argument} (h : a.insideUnit = .ok true) :
    ∃ r, Prime.rounds a = .ok r := by
  cases a with
  | float x =>
      have hx : (0 < x && x < 1) = true := Except.ok.inj h
      exact ⟨_, if_pos hx⟩
  | int i => cases h
  | bool b => cases h
  | _ => cases h

theorem ok_of_bind {α β : Type} {x : Except Fault α} {f : α → Except Fault β} {b : β}
    (h : x >>= f = .ok b) : ∃ a, x = .ok a ∧ f a = .ok b := by
  cases x with
  | error e => cases h
  | ok a => exact ⟨a, rfl, h⟩

theorem of_check {settings : Settings} (h : settings.check = .ok ()) :
    requireAtLeast 16 settings.bits .bits = .ok () ∧
    requireAtLeast 1 settings.primeAttempts .primeAttempts = .ok () ∧
    requireAtLeast 1 settings.pairAttempts .pairAttempts = .ok () ∧
    settings.errorRate.insideUnit = .ok true := by
  obtain ⟨_, h₁, h⟩ := ok_of_bind h
  obtain ⟨_, h₂, h⟩ := ok_of_bind h
  obtain ⟨_, h₃, h⟩ := ok_of_bind h
  obtain ⟨inside, h₄, h⟩ := ok_of_bind h
  cases inside with
  | true => exact ⟨h₁, h₂, h₃, h₄⟩
  | false => cases h

namespace Checked

variable {settings : Settings} {b k m : Int} (h : settings.Checked b k m)
include h

theorem sixteen_le : 16 ≤ b :=
  le_of_requireAtLeast h.bits (of_check h.check).1

theorem one_le_primeAttempts : 1 ≤ k :=
  le_of_requireAtLeast h.primeAttempts (of_check h.check).2.1

theorem one_le_pairAttempts : 1 ≤ m :=
  le_of_requireAtLeast h.pairAttempts (of_check h.check).2.2.1

theorem rounds : ∃ r, Prime.rounds settings.errorRate = .ok r :=
  rounds_of_insideUnit (of_check h.check).2.2.2

theorem primeAttempts_count : settings.primeAttempts.count = .ok (k.toNat : Int) := by
  have := h.one_le_primeAttempts
  rw [Int.toNat_of_nonneg (by omega)]
  exact count_eq_ok h.primeAttempts

theorem firstBits_eq : settings.firstBits = .ok (b / 2) := by
  rw [firstBits, count_eq_ok h.bits]
  rfl

theorem secondBits_eq : settings.secondBits = .ok (b - b / 2) := by
  rw [secondBits, count_eq_ok h.bits, h.firstBits_eq]
  rfl

end Checked

end Settings

namespace Generate

/-! ## The key of two candidates -/

/-- A fresh key for `b` bits with the factors `p` and `q`. -/
structure IsFresh (b : Int) (p q : Nat) (key : PrivateKey) : Prop where
  p_eq : key.p = p
  q_eq : key.q = q
  shape_p : HasShape (b / 2).toNat p
  shape_q : HasShape (b - b / 2).toNat q
  ne : p ≠ q
  n_eq : key.n = p * q
  length : (bitLength key.n.toNat : Int) = b
  r_eq : key.r = .plus
  s_eq : key.s = .plus
  coprime : Nat.gcd p q = 1
  coefficient : ∀ v : Int, (0 < v ∧ v < q ∧ v * p ≡ 1 [ZMOD q]) ↔ v = key.u

section OfShapes

variable {b : Int} (hb : 16 ≤ b) {p q : Nat} (hp : HasShape (b / 2).toNat p)
  (hq : HasShape (b - b / 2).toNat q) (hne : q ≠ p)
include hb hp hq hne

/-- Candidates without a common factor make a fresh key. Their low bits answer
for the residue classes and their top bits for the length of the modulus. -/
theorem isFresh_of_gcd_eq_one (h : Nat.gcd p q = 1) :
    ∃ key, PrivateKey.ofFactors p q 1 1 = .ok key ∧ IsFresh b p q key := by
  have hp4 := hp.mod_four
  have hq4 := hq.mod_four
  have hgcd : Int.gcd p q = 1 := by
    rw [Int.gcd_natCast_natCast]
    exact h
  obtain ⟨key, hkey, hkp, hkq, hr, hs, hu, huq⟩ :=
    PrivateKey.ofFactors_of_gcd_eq_one (p := (p : Int)) (q := (q : Int)) (by omega)
      (by omega) (by omega) (by omega) (by omega) hgcd .plus .plus
  have hn : key.n = p * q := by
    rw [← key.product, hkp, hkq]
  have hlength : (bitLength key.n.toNat : Int) = b := by
    rw [hn, ← Nat.cast_mul, Int.toNat_natCast, bitLength_mul (by omega) (by omega) hp hq]
    omega
  have hcoefficient (v : Int) : (0 < v ∧ v < q ∧ v * p ≡ 1 [ZMOD q]) ↔ v = key.u := by
    rw [← hkq] at huq
    rw [← hkp, ← hkq]
    exact PrivateKey.eq_u_iff hu huq v
  exact ⟨key, hkey, hkp, hkq, hp, hq, hne.symm, hn, hlength, hr, hs, h, hcoefficient⟩

omit hb hp in
/-- Candidates with a common factor make no key, and one of them is no
prime. -/
theorem mismatch_of_gcd_ne_one (h : Nat.gcd p q ≠ 1) :
    PrivateKey.ofFactors p q 1 1 = .error (.mismatch .noInverse) ∧
      ¬ (p.Prime ∧ q.Prime) := by
  have hq4 := hq.mod_four
  constructor
  · refine PrivateKey.ofFactors_of_gcd_ne_one (by omega) (by omega) ?_ 1 1
    rw [Int.gcd_natCast_natCast]
    exact h
  · rintro ⟨hpp, hqp⟩
    exact h ((Nat.coprime_primes hpp hqp).mpr hne.symm)

end OfShapes

/-! ## The ways out -/

/-- The searches find `p`, then `p` again fewer than `m` times, and then
another prime `q`. -/
def FoundPair (settings : Settings) (b k m : Int) (p q : Nat) (w w' : Workspace) : Prop :=
  ∃ n w₁ w₂, n < m.toNat ∧
    Found (b / 2).toNat k.toNat settings.errorRate p w w₁ ∧
    Repeated (b - b / 2).toNat k.toNat settings.errorRate p n w₁ w₂ ∧
    Found (b - b / 2).toNat k.toNat settings.errorRate q w₂ w' ∧ q ≠ p

/-- The ends of key generation for `b` bits, with at most `k` candidates for a
prime and at most `m` searches for the second one. -/
inductive Ends (settings : Settings) (b k m : Int) (w : Workspace) :
    Except Fault PrivateKey × Workspace → Prop
  /-- A fresh key. -/
  | fresh {p q : Nat} {key : PrivateKey} {w' : Workspace}
      (pair : FoundPair settings b k m p q w w') (isFresh : IsFresh b p q key) :
      Ends settings b k m w
        (.ok key, { w' with log := w'.log.push (.keyGenerated (bitLength key.n.toNat)) })
  /-- The search for the first prime runs out of candidates. -/
  | firstExhausted {w' : Workspace} (none : Exhausted (b / 2).toNat k.toNat settings w w') :
      Ends settings b k m w
        (.error (.searchExhausted (b / 2) settings.primeAttempts), w')
  /-- A search for the second prime runs out of candidates. -/
  | secondExhausted {p n : Nat} {w₁ w₂ w' : Workspace} (hn : n < m.toNat)
      (first : Found (b / 2).toNat k.toNat settings.errorRate p w w₁)
      (same : Repeated (b - b / 2).toNat k.toNat settings.errorRate p n w₁ w₂)
      (none : Exhausted (b - b / 2).toNat k.toNat settings w₂ w') :
      Ends settings b k m w
        (.error (.searchExhausted (b - b / 2) settings.primeAttempts), w')
  /-- All searches for the second prime find the first one. -/
  | pairExhausted {p : Nat} {w₁ w' : Workspace}
      (first : Found (b / 2).toNat k.toNat settings.errorRate p w w₁)
      (same : Repeated (b - b / 2).toNat k.toNat settings.errorRate p m.toNat w₁ w') :
      Ends settings b k m w
        (.error .pairExhausted,
          { w' with log := w'.log.push (.pairExhausted settings.pairAttempts) })
  /-- The candidates that were taken for primes have a common factor. -/
  | commonFactor {p q : Nat} {w' : Workspace} (pair : FoundPair settings b k m p q w w')
      (common : 1 < Nat.gcd p q) (not_prime : ¬ (p.Prime ∧ q.Prime)) :
      Ends settings b k m w (.error (.mismatch .noInverse), w')
  /-- The source refuses a request of the first search. -/
  | firstInterrupted {w' : Workspace}
      (cut : Interrupted (b / 2).toNat k.toNat settings.errorRate w w') :
      Ends settings b k m w (.error .sourceExhausted, w')
  /-- The source refuses a request of a search for the second prime. -/
  | secondInterrupted {p n : Nat} {w₁ w₂ w' : Workspace} (hn : n < m.toNat)
      (first : Found (b / 2).toNat k.toNat settings.errorRate p w w₁)
      (same : Repeated (b - b / 2).toNat k.toNat settings.errorRate p n w₁ w₂)
      (cut : Interrupted (b - b / 2).toNat k.toNat settings.errorRate w₂ w') :
      Ends settings b k m w (.error .sourceExhausted, w')

/-- The size of one of the factors is beyond the machine, and its mask cannot
be made. -/
inductive NoMask [Machine] (settings : Settings) (b k m : Int) (w : Workspace) :
    Except Fault PrivateKey × Workspace → Prop
  | first {f : Fault} (h : maskFault (b / 2) = some f) : NoMask settings b k m w (.error f, w)
  | second {f : Fault} {p n : Nat} {w₁ w' : Workspace} (hn : n < m.toNat)
      (first : Found (b / 2).toNat k.toNat settings.errorRate p w w₁)
      (same : Repeated (b - b / 2).toNat k.toNat settings.errorRate p n w₁ w')
      (h : maskFault (b - b / 2) = some f) : NoMask settings b k m w (.error f, w')

section PrivateKey

variable [Machine] {settings : Settings} {b k m : Int} (h : settings.Checked b k m)
include h

theorem privateKey_eq (w : Workspace) :
    privateKey settings w = (search (b / 2) settings >>= fun p =>
      searchOther p settings m.toNat >>= fun q =>
      (liftM (PrivateKey.ofFactors p q 1 1) : Logged PrivateKey) >>= fun key =>
      Logged.record (.keyGenerated (bitLength key.n.toNat)) >>= fun _ => pure key) w := by
  rw [privateKey, Stateful.bind_apply, Stateful.lift_apply, h.firstBits_eq]
  show (search (b / 2) settings >>= fun p => _) w = _
  rw [Stateful.bind_apply, Stateful.bind_apply]
  rcases search (b / 2) settings w with ⟨p | p, w₁⟩
  · rfl
  · show (liftM settings.pairAttempts.count >>= fun attempts => _ : Logged _) w₁ = _
    rw [Stateful.bind_apply, Stateful.lift_apply, Settings.count_eq_ok h.pairAttempts]

/-- Either a mask cannot be made, or the searches run and one of the ends of
`Ends` is reached. -/
theorem privateKey_cases (w : Workspace) :
    Ends settings b k m w (privateKey settings w) ∨
      NoMask settings b k m w (privateKey settings w) := by
  have hb := h.sixteen_le
  have hp2 : 2 ≤ b / 2 := by omega
  have hq2 : 2 ≤ b - b / 2 := by omega
  obtain ⟨r, hrate⟩ := h.rounds
  have hattempts := h.primeAttempts_count
  rw [privateKey_eq h, Stateful.bind_apply]
  have hfirst := search_ends hp2 hattempts hrate w
  generalize search (b / 2) settings w = out at hfirst
  cases hfirst with
  | exhausted hx => exact Or.inl (.firstExhausted hx)
  | interrupted cut => exact Or.inl (.firstInterrupted cut)
  | noMask hf => exact Or.inr (.first hf)
  | @found p w₁ hp =>
      show Ends _ _ _ _ _ ((searchOther p settings m.toNat >>= _) w₁) ∨
        NoMask _ _ _ _ _ ((searchOther p settings m.toNat >>= _) w₁)
      rw [Stateful.bind_apply]
      have hother := searchOther_ends hq2 hattempts hrate h.secondBits_eq p m.toNat w₁
      generalize searchOther p settings m.toNat w₁ = out at hother
      cases hother with
      | exhausted hn same none => exact Or.inl (.secondExhausted hn hp same none)
      | allSame same => exact Or.inl (.pairExhausted hp same)
      | interrupted hn same cut => exact Or.inl (.secondInterrupted hn hp same cut)
      | noMask hn same hf => exact Or.inr (.second hn hp same hf)
      | @found n q w₂ w₃ hn same hq hne =>
          refine Or.inl ?_
          have pair : FoundPair settings b k m p q w w₃ :=
            ⟨n, w₁, w₂, hn, hp, same, hq, hne⟩
          have hp' := hp.hasShape (by omega)
          have hq' := hq.hasShape (by omega)
          show Ends _ _ _ _ _ (((liftM (PrivateKey.ofFactors p q 1 1) : Logged PrivateKey)
            >>= _) w₃)
          rw [Stateful.bind_apply, Stateful.lift_apply]
          by_cases hgcd : Nat.gcd p q = 1
          · obtain ⟨key, hkey, hfresh⟩ := isFresh_of_gcd_eq_one hb hp' hq' hne hgcd
            rw [hkey]
            exact .fresh pair hfresh
          · obtain ⟨hkey, hprime⟩ := mismatch_of_gcd_ne_one hq' hne hgcd
            rw [hkey]
            have hp4 := hp'.mod_four
            have hpos : 0 < Nat.gcd p q := Nat.gcd_pos_of_pos_left _ (by omega)
            exact .commonFactor pair (by omega) hprime

/-- **Key generation ends in few ways.** On a stream that never ends it returns the
result of one of these ends, and not because of its source, or else it goes through
every budget. -/
theorem privateKey_ends (w : Workspace) :
    (Ends settings b k m w (privateKey settings w) ∨
      NoMask settings b k m w (privateKey settings w)) ∧
    ((∃ n out, (Ends settings b k m (w.withBudget n) out ∨
        NoMask settings b k m (w.withBudget n) out) ∧
      Logged.Returns (privateKey settings) w out.1) ∨
      Logged.NeverReturns (privateKey settings) w) := by
  refine ⟨privateKey_cases h w, ?_⟩
  rcases Logged.returns_or_neverReturns (persists_privateKey settings) w with
    ⟨r, hr, n, hn⟩ | hnever
  · refine Or.inl ⟨n, _, privateKey_cases h (w.withBudget n), ?_⟩
    rw [hn n le_rfl]
    exact ⟨hr, n, hn⟩
  · exact Or.inr hnever

end PrivateKey

def twoPrimes : Source where
  byteAt i := if i % 2 = 0 then 142 else 166
  byteLimit := 2
  callLimit := 4

theorem privateKey_ends_sixteen_bits :
    Settings.Checked { bits := .int 16 } 16 20000 100 ∧
      ∃ key w', privateKey { bits := .int 16 } { source := twoPrimes } = (.ok key, w') ∧
        IsFresh 16 199 211 key ∧
        Logged.Returns (privateKey { bits := .int 16 }) { source := twoPrimes } (.ok key) := by
  have h : Settings.Checked { bits := .int 16 } 16 20000 100 := ⟨rfl, rfl, rfl, rfl⟩
  have hfactors : (privateKey { bits := .int 16 } { source := twoPrimes }).1.map
      (fun key => (key.p, key.q)) = .ok (199, 211) := by decide +kernel
  have hends := (privateKey_ends h { source := twoPrimes }).1
  have hpersists := persists_privateKey { bits := .int 16 } { source := twoPrimes }
  refine ⟨h, ?_⟩
  rcases hrun : privateKey { bits := .int 16 } { source := twoPrimes } with ⟨f | key, w'⟩
  · rw [hrun] at hfactors
    cases hfactors
  · rw [hrun] at hfactors hends hpersists
    obtain ⟨hp, hq⟩ := Prod.mk.inj (Except.ok.inj hfactors)
    rcases hends with hends | hends
    · cases hends with
      | fresh pair isFresh =>
        obtain rfl := Nat.cast_injective (isFresh.p_eq.symm.trans hp)
        obtain rfl := Nat.cast_injective (isFresh.q_eq.symm.trans hq)
        refine ⟨key, _, rfl, isFresh, nofun, 4, fun n hn => ?_⟩
        have hbytes : 2 ≤ n := by omega
        have hextends : Workspace.Extends (Workspace.withBudget { source := twoPrimes } n)
            { source := twoPrimes } := ⟨⟨rfl, rfl, rfl, hbytes, hn⟩, rfl⟩
        exact ((hpersists _ hextends).resolve_left nofun).1
    · cases hends

/-! ## Sizes beyond the machine -/

def boundless : Settings where
  bits := .int 1000000000000000000000000000000
  primeAttempts := .int 1

/-- The checks do not turn such settings away, and yet none of the ends is
reached: the size is found too large before a byte is drawn. -/
theorem boundless_reaches_no_end :
    boundless.Checked 1000000000000000000000000000000 1 100 ∧
      ¬ Ends boundless 1000000000000000000000000000000 1 100 { source := Source.empty }
        (privateKey boundless { source := Source.empty }) := by
  have h : boundless.Checked 1000000000000000000000000000000 1 100 := ⟨rfl, rfl, rfl, rfl⟩
  refine ⟨h, ?_⟩
  have hmask : maskFault (1000000000000000000000000000000 / 2) = some .tooLarge := by decide
  rw [privateKey_eq h, Stateful.bind_apply, search_of_maskFault (by decide) hmask]
  intro hends
  cases hends

end Generate

end Blum
