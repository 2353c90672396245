import Mathlib
import BlockRules.Script.Encoding

/-!
# The forms of signatures and keys

Before a signature is checked, flags may ask that it and its key be written in a certain
way. Three facts about these checks carry over to every evaluation:

* **no byte is missed** — the strict DER check reads bytes at places it has computed from
  other bytes, and each of them lies inside the item (`Curve.isStrictDer_answers`);
* **a refusal has a name** — a check that fails names the rule that was broken
  (`Flags.checkForms_error`);
* **more flags, fewer signatures** — a signature and a key that pass under some flags pass
  under any of them (`Flags.checkForms_of_contains`), because each flag only ever adds a
  condition (`Flags.checkSignatureForm_eq_ok_iff`, `Flags.checkKeyForm_eq_ok_iff`).
-/

namespace BlockRules

/-! ## Sets of flags -/

namespace Flags

/-- A flag that is set in a part of a set is set in the whole. -/
theorem has_of_contains {F G : Flags} (subset : G.contains F = true) {f : Flag}
    (h : F.has f = true) : G.has f = true := by
  rw [has, contains, beq_iff_eq] at h ⊢
  rw [contains, beq_iff_eq] at subset
  calc G.bits &&& (single f).bits
      = G.bits &&& (F.bits &&& (single f).bits) := by rw [h]
    _ = (G.bits &&& F.bits) &&& (single f).bits := (UInt32.and_assoc ..).symm
    _ = (single f).bits := by rw [subset, h]

end Flags

/-- The verdict names the rule that was broken. -/
def ScriptError.NamesRule (e : ScriptError) : Prop := e ≠ .ok ∧ e ≠ .unknownError

instance (e : ScriptError) : Decidable e.NamesRule := inferInstanceAs (Decidable (_ ∧ _))

/-! ## Strict DER -/

namespace Curve

/-- A check that reads bytes at computed places comes to an answer. -/
def Answers (x : Except Fault Bool) : Prop := ∃ b, x = .ok b

theorem Answers.pure (b : Bool) : Answers (Pure.pure b) := ⟨b, rfl⟩

/-- A guard at the front answers, if what it lets through does. -/
theorem Answers.unless {c : Prop} [Decidable c] {x : Except Fault Bool} (h : ¬c → Answers x) :
    Answers (if c then Pure.pure false else x) := by
  split
  next => exact .pure false
  next passed => exact h passed

theorem Answers.bind {α : Type} {x : Except Fault α} {a : α} {f : α → Except Fault Bool}
    (value : x = .ok a) (h : Answers (f a)) : Answers (x >>= f) := by
  rw [value]
  exact h

/-- A byte inside an item is read. -/
theorem byteAt_of_lt {bs : Bytes} {i : Nat} (inside : i < bs.length) : byteAt bs i = .ok bs[i] := by
  rw [byteAt, List.getElem?_eq_getElem inside]

/-- The check of an integer that lies inside an item stays inside of it. -/
theorem isStrictInteger_answers {sig : Bytes} {place size : Nat}
    (inside : place + size ≤ sig.length) : Answers (isStrictInteger sig place size) := by
  simp only [isStrictInteger]
  refine .unless fun filled => .bind (byteAt_of_lt (by omega)) (.unless fun _ => ?_)
  split
  next wide => exact .bind (byteAt_of_lt (by omega)) (.pure _)
  next => exact .pure true

/-- **The strict DER check reads no byte outside of the item**, whatever lengths the item
states: it comes to an answer on every item. -/
theorem isStrictDer_answers (sig : Bytes) : Answers (isStrictDer sig) := by
  simp only [isStrictDer]
  refine .unless fun size => ?_
  have long : 9 ≤ sig.length := by omega
  refine .bind (byteAt_of_lt (by omega)) (.unless fun _ => ?_)
  refine .bind (byteAt_of_lt (by omega)) (.unless fun _ => ?_)
  refine .bind (byteAt_of_lt (by omega)) (.unless fun tooWide => ?_)
  -- from here on both stated lengths are known to fit
  refine .bind (byteAt_of_lt (by omega)) (.unless fun mismatch => ?_)
  refine .bind (byteAt_of_lt (by omega)) (.unless fun _ => ?_)
  have integer : Answers (isStrictInteger sig 4 sig[3].toNat) := isStrictInteger_answers (by omega)
  obtain ⟨strictR, hR⟩ := integer
  refine .bind hR (.unless fun _ => .bind (byteAt_of_lt (by omega)) (.unless fun _ => ?_))
  exact isStrictInteger_answers (by omega)

end Curve

/-! ## The checks under flags -/

namespace Flags

variable {flags F G : Flags} {version : SigVersion} {sig key : Bytes}

/-- Flags ask for strict DER. -/
def asksStrictDer (flags : Flags) : Bool :=
  flags.has .derSig || flags.has .lowS || flags.has .strictEnc

/-- What flags ask of a signature that is not empty. -/
structure AllowsSignature (flags : Flags) (sig : Bytes) (hashType : UInt8) : Prop where
  strict : flags.asksStrictDer = true → Curve.isStrictDer sig = .ok true
  low : flags.has .lowS = true → Curve.isLowDer sig = true
  defined : flags.has .strictEnc = true → (HashType.mk hashType.toUInt32).isDefined = true

/-- What flags ask of a key. -/
structure AllowsKey (flags : Flags) (version : SigVersion) (key : Bytes) : Prop where
  known : flags.has .strictEnc = true → Curve.isCompressedOrUncompressed key = true
  compressed : flags.has .witnessPubkeyType = true → version = .witnessV0 →
    Curve.isCompressed key = true

/-- Fewer flags allow no fewer signatures. -/
theorem AllowsSignature.of_contains {hashType : UInt8} (subset : G.contains F = true)
    (h : G.AllowsSignature sig hashType) : F.AllowsSignature sig hashType where
  strict asked := by
    refine h.strict ?_
    simp only [asksStrictDer, Bool.or_eq_true] at asked ⊢
    exact asked.imp (Or.imp (has_of_contains subset) (has_of_contains subset))
      (has_of_contains subset)
  low asked := h.low (has_of_contains subset asked)
  defined asked := h.defined (has_of_contains subset asked)

theorem AllowsKey.of_contains (subset : G.contains F = true) (h : G.AllowsKey version key) :
    F.AllowsKey version key where
  known asked := h.known (has_of_contains subset asked)
  compressed asked := h.compressed (has_of_contains subset asked)

/-- The check of a signature that is not empty, without the fault that cannot arise. -/
theorem checkSignatureForm_of_getLast? (flags : Flags) {hashType : UInt8}
    (last : sig.getLast? = some hashType) : flags.checkSignatureForm sig =
      if flags.asksStrictDer = true ∧ Curve.isStrictDer sig ≠ .ok true then .error
        (.failed .sigDer)
      else if flags.has .lowS = true ∧ Curve.isLowDer sig = false then .error (.failed .sigHighS)
      else if flags.has .strictEnc = true ∧ (HashType.mk hashType.toUInt32).isDefined = false then
        .error (.failed .sigHashType)
      else .ok () := by
  obtain ⟨strict, hstrict⟩ := Curve.isStrictDer_answers sig
  have asks :
      (flags.has .derSig || flags.has .lowS || flags.has .strictEnc) = flags.asksStrictDer := rfl
  simp only [checkSignatureForm, last, hstrict, asks]
  cases flags.asksStrictDer <;> cases strict <;> simp

/-- The check of a signature comes to an end: it lets pass what the flags allow, and names
a rule for everything else. -/
theorem checkSignatureForm_cases (flags : Flags) (sig : Bytes) :
    (flags.checkSignatureForm sig = .ok () ∧
      ∀ hashType, sig.getLast? = some hashType → flags.AllowsSignature sig hashType) ∨
    ∃ e, flags.checkSignatureForm sig = .error (.failed e) ∧ e.NamesRule ∧
      ∃ hashType, sig.getLast? = some hashType ∧ ¬flags.AllowsSignature sig hashType := by
  rcases last : sig.getLast? with _ | hashType
  · exact .inl ⟨by simp only [checkSignatureForm, last], by simp⟩
  have value := flags.checkSignatureForm_of_getLast? last
  split at value
  next loose => exact .inr ⟨_, value, by decide, _, rfl, fun h => loose.2 (h.strict loose.1)⟩
  next strict =>
  split at value
  next high => exact .inr ⟨_, value, by decide, _, rfl, fun h => by simp [h.low high.1] at high⟩
  next low =>
  split at value
  next unknown =>
    exact .inr ⟨_, value, by decide, _, rfl, fun h => by simp [h.defined unknown.1] at unknown⟩
  next defined =>
    refine .inl ⟨value, ?_⟩
    rintro _ ⟨⟩
    simp only [not_and, ne_eq, Decidable.not_not, Bool.not_eq_false] at strict low defined
    exact ⟨strict, low, defined⟩

/-- A signature passes if it is empty or as the flags ask. -/
theorem checkSignatureForm_eq_ok_iff : flags.checkSignatureForm sig = .ok () ↔
    ∀ hashType, sig.getLast? = some hashType → flags.AllowsSignature sig hashType := by
  obtain ⟨passes, allowed⟩ | ⟨e, refused, -, hashType, last, forbidden⟩ :=
    flags.checkSignatureForm_cases sig
  · exact ⟨fun _ => allowed, fun _ => passes⟩
  · refine ⟨fun passes => ?_, fun allowed => absurd (allowed hashType last) forbidden⟩
    rw [refused] at passes
    cases passes

/-- The check of a key comes to an end in the same way. -/
theorem checkKeyForm_cases (flags : Flags) (version : SigVersion) (key : Bytes) :
    (flags.checkKeyForm version key = .ok () ∧ flags.AllowsKey version key) ∨
    ∃ e, flags.checkKeyForm version key = .error (.failed e) ∧ e.NamesRule ∧
      ¬flags.AllowsKey version key := by
  by_cases unknown : (flags.has .strictEnc && !Curve.isCompressedOrUncompressed key) = true
  · refine .inr ⟨.pubKeyType, by rw [checkKeyForm, if_pos unknown], by decide,
      fun allowed => ?_⟩
    rw [Bool.and_eq_true, Bool.not_eq_true'] at unknown
    exact absurd (allowed.known unknown.1) (by simp [unknown.2])
  · by_cases wide : (flags.has .witnessPubkeyType && version == .witnessV0 &&
        !Curve.isCompressed key) = true
    · refine .inr ⟨.witnessPubkeyType, by rw [checkKeyForm, if_neg unknown, if_pos wide],
        by decide, fun allowed => ?_⟩
      simp only [Bool.and_eq_true, Bool.not_eq_true', beq_iff_eq] at wide
      exact absurd (allowed.compressed wide.1.1 wide.1.2) (by simp [wide.2])
    · refine .inl ⟨by rw [checkKeyForm, if_neg unknown, if_neg wide], ?_⟩
      simp only [Bool.and_eq_true, Bool.not_eq_true', beq_iff_eq, not_and, Bool.not_eq_false,
        and_imp] at unknown wide
      exact ⟨unknown, wide⟩

/-- A key passes if it is as the flags ask. -/
theorem checkKeyForm_eq_ok_iff : flags.checkKeyForm version key = .ok () ↔
    flags.AllowsKey version key := by
  obtain ⟨passes, allowed⟩ | ⟨e, refused, -, forbidden⟩ :=
    flags.checkKeyForm_cases version key
  · exact ⟨fun _ => allowed, fun _ => passes⟩
  · refine ⟨fun passes => ?_, fun allowed => absurd allowed forbidden⟩
    rw [refused] at passes
    cases passes

theorem checkForms_eq_ok_iff : flags.checkForms version sig key = .ok () ↔
    flags.checkSignatureForm sig = .ok () ∧ flags.checkKeyForm version key = .ok () := by
  rw [checkForms]
  cases flags.checkSignatureForm sig <;> simp

/-- A refusal names the rule that was broken. -/
theorem checkForms_error {stop : Stop} (h : flags.checkForms version sig key = .error stop) :
    ∃ e, stop = .failed e ∧ e.NamesRule := by
  rw [checkForms] at h
  obtain ⟨passes, -⟩ | ⟨e, refused, named, -⟩ := flags.checkSignatureForm_cases sig
  · obtain ⟨passes', -⟩ | ⟨e, refused, named, -⟩ := flags.checkKeyForm_cases version key
    · simp [passes, passes'] at h
    · simp only [passes, refused, Except.error.injEq] at h
      exact ⟨e, h.symm, named⟩
  · simp only [refused, Except.error.injEq] at h
    exact ⟨e, h.symm, named⟩

/-- What passes under a set of flags passes under every part of it. -/
theorem checkForms_of_contains (subset : G.contains F = true)
    (h : G.checkForms version sig key = .ok ()) : F.checkForms version sig key = .ok () := by
  obtain ⟨signature, written⟩ := checkForms_eq_ok_iff.1 h
  refine checkForms_eq_ok_iff.2 ⟨checkSignatureForm_eq_ok_iff.2 fun hashType last => ?_, ?_⟩
  · exact .of_contains subset (checkSignatureForm_eq_ok_iff.1 signature hashType last)
  · exact checkKeyForm_eq_ok_iff.2 (.of_contains subset (checkKeyForm_eq_ok_iff.1 written))

end Flags

end BlockRules
