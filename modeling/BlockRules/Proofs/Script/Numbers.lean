import Mathlib
import BlockRules.Bytes.Lemmas
import BlockRules.Script.Machine

/-!
# Numbers that operations read

An operation that calculates reads its operands off the stack. This module says when an
operand is refused, and that nothing else can go wrong on the way:

* **refusal** — `Operand.IsRejected`: the item is longer than the operation allows, or
  flags ask for the shortest form and it is not in it. `Flags.readNumber_of_rejected` and
  `Flags.readNumber_of_accepted` say that this is the only way in which reading fails;
* **range** — an item of at most four bytes stands for a number below `2 ^ 31` in
  magnitude (`ScriptNum.natAbs_value_lt_of_short`), so that no function of one or two
  such numbers leaves the words of 64 bits (`Unary.signed64_apply`,
  `Binary.signed64_apply`).
-/

namespace BlockRules

namespace ScriptNum

/-- An item stands for a number smaller in magnitude than the sign bit in its last byte. -/
theorem natAbs_value_lt (bs : Bytes) : (value bs).natAbs < 128 * 256 ^ (bs.length - 1) := by
  have bound := Bytes.toNat_lt bs
  have sign : 128 <<< (8 * (bs.length - 1)) = 128 * 256 ^ (bs.length - 1) := by
    rw [Nat.shiftLeft_eq, Nat.pow_mul]
  simp only [value, sign]
  cases bs with
  | nil => simp
  | cons b bs =>
    rw [List.length_cons, Nat.pow_succ] at bound
    rw [List.length_cons, Nat.add_sub_cancel]
    split <;> omega

/-- Four bytes hold the numbers below `2 ^ 31` in magnitude. -/
theorem natAbs_value_lt_of_short {bs : Bytes} (short : bs.length ≤ 4) :
    (value bs).natAbs < 2 ^ 31 := by
  have bound := natAbs_value_lt bs
  have power : 256 ^ (bs.length - 1) ≤ 256 ^ 3 := Nat.pow_le_pow_right (by decide) (by omega)
  omega

end ScriptNum

/-- A number that needs fewer than 64 bits is a signed word. -/
theorem signed64_of_natAbs_lt {n : Int} (small : n.natAbs < 2 ^ 63) : signed64 n = .ok n := by
  rw [signed64, if_pos (by omega)]

/-- Functions of one number at most add one to its magnitude. -/
theorem Unary.natAbs_apply_le (f : Unary) (n : Int) : (f.apply n).natAbs ≤ n.natAbs + 1 := by
  cases f <;> simp only [Unary.apply] <;> omega

/-- Functions of two numbers at most add their magnitudes, or give a truth value. -/
theorem Binary.natAbs_apply_le (f : Binary) (a b : Int) :
    (f.apply a b).natAbs ≤ a.natAbs + b.natAbs + 1 := by
  cases f <;> simp only [Binary.apply] <;> omega

/-- A function of a number of four bytes stays within a signed word. -/
theorem Unary.signed64_apply (f : Unary) {n : Int} (small : n.natAbs < 2 ^ 31) :
    signed64 (f.apply n) = .ok (f.apply n) := by
  have bound := f.natAbs_apply_le n
  exact signed64_of_natAbs_lt (by omega)

/-- A function of two numbers of four bytes stays within a signed word. -/
theorem Binary.signed64_apply (f : Binary) {a b : Int} (smallA : a.natAbs < 2 ^ 31)
    (smallB : b.natAbs < 2 ^ 31) : signed64 (f.apply a b) = .ok (f.apply a b) := by
  have bound := f.natAbs_apply_le a b
  exact signed64_of_natAbs_lt (by omega)

/-! ## Operands -/

/-- An item that an operation reads as a number, and the size it may have. -/
structure Operand where
  item : Bytes
  limit : Nat
  deriving DecidableEq, Repr

namespace Operand

/-- An operand of a calculation. -/
def ofItem (item : Bytes) : Operand := ⟨item, Limit.number⟩

/-- An operand that is a lock time. -/
def ofTime (item : Bytes) : Operand := ⟨item, Limit.lockTime⟩

/-- The item is too long, or not in the shortest form where flags ask for it. -/
def IsRejected (flags : Flags) (o : Operand) : Prop :=
  o.limit < o.item.length ∨ flags.has .minimalData = true ∧ ScriptNum.isMinimal o.item = false

instance (flags : Flags) (o : Operand) : Decidable (o.IsRejected flags) :=
  inferInstanceAs (Decidable (_ ∨ _))

/-- Flags that ask for less reject less. -/
theorem IsRejected.of_flags {F G : Flags} {o : Operand}
    (fewer : F.has .minimalData = true → G.has .minimalData = true) (h : o.IsRejected F) :
    o.IsRejected G :=
  h.imp_right fun ⟨asked, long⟩ => ⟨fewer asked, long⟩

end Operand

namespace Flags

variable {flags : Flags} {limit : Nat} {item : Bytes}

/-- A rejected operand ends an evaluation, without a reason. -/
theorem readNumber_of_rejected (h : Operand.IsRejected flags ⟨item, limit⟩) :
    flags.readNumber limit item = .error (.failed .unknownError) := by
  by_cases long : limit < item.length
  · rw [readNumber, ScriptNum.decode, if_pos long]
    rfl
  · obtain ⟨asked, padded⟩ := h.resolve_left long
    rw [readNumber, ScriptNum.decode, if_neg long, asked, padded]
    rfl

/-- An operand that is not rejected is read; no shift leaves the word on the way. -/
theorem readNumber_of_accepted (small : limit ≤ 8)
    (h : ¬Operand.IsRejected flags ⟨item, limit⟩) :
    flags.readNumber limit item = .ok (ScriptNum.value item) := by
  obtain ⟨short, minimal⟩ := not_or.1 h
  have size : item.length ≤ limit := Nat.le_of_not_lt short
  have kept : ¬(flags.has .minimalData && !ScriptNum.isMinimal item) = true := by
    rw [Bool.and_eq_true, Bool.not_eq_true']
    exact minimal
  rw [readNumber, ScriptNum.decode, if_neg short, if_neg kept, if_neg (by omega)]

/-- What reading an operand comes to. -/
theorem readNumber_eq (small : limit ≤ 8) : flags.readNumber limit item =
    if Operand.IsRejected flags ⟨item, limit⟩ then .error (.failed .unknownError)
    else .ok (ScriptNum.value item) := by
  split
  next h => exact readNumber_of_rejected h
  next h => exact readNumber_of_accepted small h

/-- An operand is read exactly if it is not rejected, and then as its value. -/
theorem readNumber_eq_ok_iff (small : limit ≤ 8) {n : Int} :
    flags.readNumber limit item = .ok n ↔
      ¬Operand.IsRejected flags ⟨item, limit⟩ ∧ ScriptNum.value item = n := by
  rw [readNumber_eq small]
  split
  next h => simp [h]
  next h => simp [h]

end Flags

end BlockRules
