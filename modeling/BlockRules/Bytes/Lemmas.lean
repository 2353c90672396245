import Mathlib
import BlockRules.Bytes

/-!
# Bytes as digits

Bytes are the digits of a number in base 256. Reading what was written gives the number
up to a multiple of `256 ^ w` (`Bytes.toNat_ofNat`), and `w` bytes stand for a number
below that bound (`Bytes.toNat_lt`). The last byte is the highest digit, in reading
(`Bytes.toNat_append`) as in writing (`Bytes.ofNat_succ_eq_append`).
-/

namespace BlockRules.Bytes

/-- Writing keeps the number up to a multiple of `256 ^ width`. -/
theorem toNat_ofNat (width n : Nat) : toNat (ofNat width n) = n % 256 ^ width := by
  induction width generalizing n with
  | zero => simp [Nat.mod_one]
  | succ width ih =>
    have byte : (UInt8.ofNat (n % 256)).toNat = n % 256 := by
      simp [UInt8.toNat_ofNat']
    rw [ofNat_succ, toNat_cons, ih, byte, Nat.pow_succ', Nat.mod_mul]

/-- A list of `w` bytes stands for a number below `256 ^ w`. -/
theorem toNat_lt (bs : Bytes) : toNat bs < 256 ^ bs.length := by
  induction bs with
  | nil => simp
  | cons b bs ih =>
    have small : b.toNat < 256 := b.toNat_lt
    rw [toNat_cons, List.length_cons, Nat.pow_succ]
    omega

/-- Bytes behind others weigh 256 for each byte in front of them. -/
theorem toNat_append (as bs : Bytes) :
    toNat (as ++ bs) = toNat as + 256 ^ as.length * toNat bs := by
  induction as with
  | nil => simp
  | cons a as ih =>
    rw [List.cons_append, toNat_cons, toNat_cons, ih, List.length_cons]
    ring

/-- The highest one of the low bytes of a number. -/
theorem ofNat_succ_eq_append (width n : Nat) :
    ofNat (width + 1) n = ofNat width n ++ [UInt8.ofNat (n / 256 ^ width)] := by
  induction width generalizing n with
  | zero =>
    rw [ofNat_succ, ofNat_zero, ofNat_zero, List.nil_append, Nat.pow_zero, Nat.div_one]
    exact congrArg (fun b => [b]) (UInt8.toNat_inj.1 (by simp))
  | succ width ih =>
    rw [ofNat_succ, ih, ofNat_succ, List.cons_append, Nat.div_div_eq_div_mul, Nat.pow_succ']

/-- The low bytes of a number that begins with the digits of given bytes are these bytes. -/
theorem ofNat_toNat_add (bs : Bytes) (n : Nat) :
    ofNat bs.length (toNat bs + 256 ^ bs.length * n) = bs := by
  have written := ofNat_toNat (ofNat bs.length (toNat bs + 256 ^ bs.length * n))
  rw [length_ofNat, toNat_ofNat, Nat.add_mul_mod_self_left, Nat.mod_eq_of_lt (toNat_lt bs),
    ofNat_toNat] at written
  exact written.symm

/-- Bytes that stand for zero are zeros. -/
theorem toNat_eq_zero_iff (bs : Bytes) : toNat bs = 0 ↔ ∀ b ∈ bs, b = 0 := by
  induction bs with
  | nil => simp
  | cons b bs ih =>
    rw [toNat_cons, List.forall_mem_cons, ← ih, ← UInt8.toNat_inj, UInt8.toNat_zero]
    omega

/-- The mask of the sign bit asks whether a byte is at least 128. -/
theorem and_topBit_ne_zero_iff : ∀ {b : UInt8}, b &&& 0x80 ≠ 0 ↔ 128 ≤ b.toNat := by
  decide +kernel

end BlockRules.Bytes
