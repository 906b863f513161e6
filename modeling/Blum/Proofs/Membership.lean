import Mathlib
import Blum.Proofs.JacobiSymbol
import Blum.Proofs.UnitSquares

/-!
# What engines say about membership

Four operations look at an operand: the forward map, the inverse map and the
two checks. They test the range in different ways and in a different order,
and yet they agree on every integer. With the factors a number is either
accepted by both checks and inverted, or refused by all three. Without them a
number is refuted by its Jacobi symbol or left open, and never confirmed.

The engine without the factors approximates the one with them. It may refute
only what is no square of a unit, because such a square has Jacobi symbol 1
modulo every odd number; and whatever has two Euler symbols 1 is the square of
a unit, whether the factors are prime or not.
-/

namespace Blum

namespace Engine

open PrivateKey

/-! ## Any engine -/

section Any

variable {e : Engine} {x : Int}

theorem check_of_not_between (h : ¬ (0 < x ∧ x < e.modulus)) :
    e.check x = .ok .notValid :=
  if_pos h

/-! The second check follows the first. -/

theorem accepts_of_check_valid (h : e.check x = .ok .valid) : e.accepts x = .ok true := by
  rw [accepts, h]
  rfl

theorem accepts_of_check_notValid (h : e.check x = .ok .notValid) :
    e.accepts x = .ok false := by
  rw [accepts, h]
  rfl

theorem accepts_of_check_unknown (h : e.check x = .ok .unknown) :
    e.accepts x = .error .undecided := by
  rw [accepts, h]
  rfl

end Any

/-! ## With the factors -/

section Private

variable {key : PrivateKey} {x : Int}

theorem check_of_between (h : 0 < x ∧ x < key.n) :
    key.engine.check x = (selectedRoot key x >>= fun root =>
      if root.isNone then pure .notValid else pure .valid) :=
  if_neg (not_not.mpr h)

theorem check_of_mem_squares (hx : x ∈ key.squares) :
    key.engine.check x = .ok .valid := by
  obtain ⟨-, hn, hp, hq⟩ := mem_squares_iff.mp hx
  rw [check_of_between ⟨pos_of_mem_squares hx, hn⟩, selectedRoot_eq, if_pos ⟨hp, hq⟩]
  rfl

theorem check_of_not_mem_squares (hx : x ∉ key.squares) :
    key.engine.check x = .ok .notValid := by
  by_cases hrange : 0 < x ∧ x < key.n
  · rw [check_of_between hrange, selectedRoot_eq,
      if_neg (not_symbols_of_not_mem_squares hx hrange.1.le hrange.2)]
    rfl
  · exact check_of_not_between hrange

theorem check_eq_valid_iff : key.engine.check x = .ok .valid ↔ x ∈ key.squares := by
  constructor
  · intro h
    by_contra hx
    rw [check_of_not_mem_squares hx] at h
    cases h
  · exact check_of_mem_squares

end Private

/-! ## Without the factors -/

section Public

variable {key : PublicKey} {x : Int}

theorem invert_pub (key : PublicKey) (x : Int) :
    invert ⟨.pub key⟩ x = .error .factorsRequired := rfl

theorem check_pub_of_between (h : 0 < x ∧ x < key.n) :
    check ⟨.pub key⟩ x =
      if jacobiSym x key.n.toNat ≠ 1 then .ok .notValid else .ok .unknown := by
  have hrange : 0 < x ∧ x < modulus ⟨.pub key⟩ := h
  have hsym := jacobiSymbol_eq key.n_pos key.odd x
  unfold check
  rw [if_neg (not_not.mpr hrange)]
  simp only [hsym, bind, Except.bind]
  rfl

theorem check_pub_cases (key : PublicKey) (x : Int) :
    check ⟨.pub key⟩ x = .ok .notValid ∨ check ⟨.pub key⟩ x = .ok .unknown := by
  by_cases hrange : 0 < x ∧ x < key.n
  · rw [check_pub_of_between hrange]
    split_ifs
    · exact Or.inl rfl
    · exact Or.inr rfl
  · exact Or.inl (check_of_not_between hrange)

theorem check_pub_of_mem_unitSquares (hrange : 0 < x ∧ x < key.n)
    (hx : x ∈ unitSquares key.n) : check ⟨.pub key⟩ x = .ok .unknown := by
  obtain ⟨z, hz, rfl⟩ := hx
  rw [check_pub_of_between hrange, jacobiSym_sq_emod key.n_pos hz]
  rfl

end Public

/-! ## The operations agree -/

/-- The number is confirmed by both checks and inverted. -/
structure Admits (e : Engine) (x : Int) : Prop where
  check : e.check x = .ok .valid
  accepts : e.accepts x = .ok true
  invert : ∃ z, e.invert x = .ok z

/-- The number is refused by both checks and by the inverse map, which cites it. -/
structure Refuses (e : Engine) (x : Int) : Prop where
  check : e.check x = .ok .notValid
  accepts : e.accepts x = .ok false
  invert : FailsWith (DigitLimit.raised none (e.invert x)) .invalidInput
  raised : ∀ limit : DigitLimit, FailsWith (limit.raised (e.invert x))
    (limit.kindFor .invalidInput (if 0 < x ∧ x < e.modulus then [x] else [x, e.modulus]))

/-- With the factors every number is either admitted or refused. -/
theorem admits_xor_refuses (key : PrivateKey) (x : Int) :
    Xor (key.engine.Admits x) (key.engine.Refuses x) := by
  by_cases hx : x ∈ key.squares
  · have hcheck := check_of_mem_squares hx
    refine Or.inl ⟨⟨hcheck, accepts_of_check_valid hcheck, _, invert_of_mem_squares hx⟩, ?_⟩
    intro h
    cases hcheck.symm.trans h.check
  · have hcheck := check_of_not_mem_squares hx
    have hinvert : FailsWith (DigitLimit.raised none (key.engine.invert x)) .invalidInput := by
      rw [DigitLimit.raised_none]
      exact invert_of_not_mem_squares hx
    refine Or.inr ⟨⟨hcheck, accepts_of_check_notValid hcheck, hinvert,
      raised_invert_of_not_mem_squares hx⟩, ?_⟩
    intro h
    cases hcheck.symm.trans h.check

/-- What is not an integer is refused before anything else is looked at. -/
theorem call_of_not_int (e : Engine) {a : Argument} (ha : ∀ i, a ≠ .int i)
    (op : Operation) : op.call e a = .error (.notInteger op.operandName a.typeName) := by
  have hint : a.integer op.operandName = .error (.notInteger op.operandName a.typeName) := by
    cases a with
    | int i => exact absurd rfl (ha i)
    | _ => rfl
  rw [Operation.call, hint]
  rfl

/-- **The domain operations agree.** An operand that is no integer is a type
error for each of them. On integers the forward map fails by its range only;
with the factors the other three admit the number or refuse it together; and
without the factors the number is never confirmed, never inverted, and the
second check answers exactly where the first one does. A limit on digits changes
two of these faults, those that cite their operand, for operands and moduli that
it does not admit. -/
theorem domain_operations_agree (e : Engine) :
    (∀ a : Argument, (∀ i, a ≠ .int i) → ∀ op : Operation,
      op.call e a = .error (.notInteger op.operandName a.typeName) ∧
        ∀ limit : DigitLimit, FailsWith (limit.raised (op.call e a)) .type) ∧
    ∀ x : Int,
      (if 0 ≤ x ∧ x < e.modulus then e.apply x = .ok (x ^ 2 % e.modulus)
        else FailsWith (DigitLimit.raised none (e.apply x)) .invalidInput ∧
          ∀ limit : DigitLimit, FailsWith (limit.raised (e.apply x))
            (limit.kindFor .invalidInput [x, e.modulus])) ∧
      (e.hasPrivateKey = true → Xor (e.Admits x) (e.Refuses x)) ∧
      (e.hasPrivateKey = false →
        (∀ limit : DigitLimit, FailsWith (limit.raised (e.invert x)) .missingPrivateKey) ∧
        (e.check x = .ok .notValid ∨ e.check x = .ok .unknown) ∧
        (e.accepts x = .ok false ∨ FailsWith (e.accepts x) .missingPrivateKey) ∧
        (e.accepts x = .ok false ↔ e.check x = .ok .notValid) ∧
        (FailsWith (e.accepts x) .missingPrivateKey ↔ e.check x = .ok .unknown) ∧
        ∀ limit : DigitLimit, limit.raised (e.accepts x) = e.accepts x) := by
  refine ⟨fun a ha op => ?_, fun x => ⟨?_, ?_, ?_⟩⟩
  · have hcall := call_of_not_int e ha op
    exact ⟨hcall, fun limit => failsWith_raised_of_numbers_eq_nil hcall rfl⟩
  · rw [apply_eq]
    split_ifs
    · rfl
    · refine ⟨?_, fun limit => failsWith_raised rfl⟩
      rw [DigitLimit.raised_none]
      exact .of_eq rfl rfl
  · intro hkey
    rcases e with ⟨key | key⟩
    · cases hkey
    · exact admits_xor_refuses key x
  · intro hkey
    rcases e with ⟨key | key⟩
    · refine ⟨fun limit => failsWith_raised_of_numbers_eq_nil (invert_pub key x) rfl, ?_⟩
      rcases (check_pub_cases key x).symm with hcheck | hcheck
      · have haccepts := accepts_of_check_unknown hcheck
        have hfails : FailsWith (accepts ⟨.pub key⟩ x) .missingPrivateKey :=
          .of_eq haccepts rfl
        refine ⟨Or.inr hcheck, Or.inr hfails, ?_, iff_of_true hfails hcheck, fun limit => ?_⟩
        · rw [haccepts, hcheck]
          simp
        · rw [haccepts, DigitLimit.raised_error, Fault.raised_of_numbers_eq_nil rfl]
      · have haccepts := accepts_of_check_notValid hcheck
        refine ⟨Or.inl hcheck, Or.inl haccepts, iff_of_true haccepts hcheck, ?_, fun limit => ?_⟩
        · refine iff_of_false (not_failsWith_of_ok haccepts) ?_
          rw [hcheck]
          simp
        · rw [haccepts, DigitLimit.raised_ok]
    · cases hkey

/-- A truth value is no operand, and the number 4 is admitted with the factors 7 and 11
and not inverted without them. The number `10 ^ 4300` is refused, and cannot be cited if
4300 digits are the limit. -/
theorem domain_operations_agree_seven_eleven :
    FailsWith (Operation.invert.call sevenEleven.engine.publicOnly (.bool true)) .type ∧
      sevenEleven.engine.Admits 4 ∧ sevenEleven.engine.Refuses tooLong ∧
      FailsWith (sevenEleven.engine.publicOnly.invert 4) .missingPrivateKey ∧
      FailsWith (DigitLimit.raised none (sevenEleven.engine.apply tooLong)) .invalidInput ∧
      FailsWith (DigitLimit.raised (some 4300) (sevenEleven.engine.apply tooLong)) .value ∧
      FailsWith (DigitLimit.raised (some 4300) (sevenEleven.engine.publicOnly.invert tooLong))
        .missingPrivateKey := by
  have hpriv := domain_operations_agree sevenEleven.engine
  have hpub := domain_operations_agree sevenEleven.engine.publicOnly
  have happly := (hpriv.2 tooLong).1
  rw [if_neg (by decide +kernel)] at happly
  have hkind : DigitLimit.kindFor (some 4300) .invalidInput
      [tooLong, sevenEleven.engine.modulus] = .value := by
    decide +kernel
  have hvalid : sevenEleven.engine.check 4 = .ok .valid := by decide +kernel
  have hadmits := ((hpriv.2 4).2.1 rfl).resolve_right fun h => by
    cases hvalid.symm.trans h.1.check
  have hnotValid : sevenEleven.engine.check tooLong = .ok .notValid :=
    check_of_not_between (by decide +kernel)
  have hrefuses := ((hpriv.2 tooLong).2.1 rfl).resolve_left fun h => by
    cases hnotValid.symm.trans h.1.check
  have htype := (hpub.1 (.bool true) nofun .invert).2 none
  have hinvert := ((hpub.2 4).2.2 rfl).1 none
  rw [DigitLimit.raised_none] at htype hinvert
  refine ⟨htype, hadmits.1, hrefuses.1, hinvert, happly.1, ?_,
    ((hpub.2 tooLong).2.2 rfl).1 _⟩
  rw [← hkind]
  exact happly.2 (some 4300)

/-! ## The approximation -/

/-- **The engine without the factors approximates the one with them.** What it
refutes is no square of a unit, for any odd modulus. Next to an engine with the
factors, it refutes nothing that this one confirms, leaves open everything that
this one confirms, answers only what this one answers too, and squares alike. -/
theorem publicOnly_approximates :
    (∀ (key : PublicKey) (x : Int), 0 < x → x < key.n →
      check ⟨.pub key⟩ x = .ok .notValid → x ∉ unitSquares key.n) ∧
    ∀ (key : PrivateKey) (x : Int),
      (key.engine.publicOnly.check x = .ok .notValid →
        key.engine.check x = .ok .notValid) ∧
      (key.engine.check x = .ok .valid →
        key.engine.publicOnly.check x = .ok .unknown) ∧
      (∀ b, key.engine.publicOnly.accepts x = .ok b → key.engine.accepts x = .ok b) ∧
      key.engine.publicOnly.apply x = key.engine.apply x := by
  constructor
  · intro key x hpos hn hcheck hx
    cases hcheck.symm.trans (check_pub_of_mem_unitSquares ⟨hpos, hn⟩ hx)
  · intro key x
    by_cases hx : x ∈ key.squares
    · have hpub : key.engine.publicOnly.check x = .ok .unknown :=
        check_pub_of_mem_unitSquares ⟨pos_of_mem_squares hx, hx.2.1⟩
          (squares_subset_unitSquares hx)
      refine ⟨?_, fun _ => hpub, ?_, rfl⟩
      · intro h
        cases hpub.symm.trans h
      · intro b h
        cases (accepts_of_check_unknown hpub).symm.trans h
    · have hcheck := check_of_not_mem_squares hx
      refine ⟨fun _ => hcheck, ?_, ?_, rfl⟩
      · intro h
        cases hcheck.symm.trans h
      · intro b h
        rcases check_pub_cases key.toPublicKey x with hpub | hpub
        · cases (accepts_of_check_notValid hpub).symm.trans h
          exact accepts_of_check_notValid hcheck
        · cases (accepts_of_check_unknown hpub).symm.trans h

theorem publicOnly_approximates_seventySeven :
    check ⟨.pub sevenEleven.toPublicKey⟩ 2 = .ok .notValid ∧ 2 ∉ unitSquares 77 := by
  have hcheck : check ⟨.pub sevenEleven.toPublicKey⟩ 2 = .ok .notValid := by
    decide +kernel
  exact ⟨hcheck, publicOnly_approximates.1 _ 2 (by decide) (by decide) hcheck⟩

end Engine

end Blum
