import Mathlib
import BlockRules.Proofs.Wide.Shifts
import BlockRules.Target.Lemmas

/-!
# Targets of fixed width

A target of 256 bits is brought into compact form on its words, with shifts, a cut to 32 bits and a
mask for the sign (`Target.ofUInt256`). A number of any size is brought into that form by its
leading bytes (`Target.ofInt?`). On 256 bits the two come to the same form:

* **leading bytes** — the word that the shifts leave holds them, and nothing is cut off
  (`Target.toNat_leadingWord`);
* **the form** — mask and shifts put it together from a size and a mantissa that do not overlap
  (`Target.toNat_compact_ofUInt256`).

What the form keeps is a number of 256 bits again, and not a larger one.
-/

namespace BlockRules.Target

/-! ## The leading bytes -/

/-- The leading bytes of a value, moved to the bottom and cut to a word. -/
def leadingWord (v : UInt256) : UInt32 :=
  let size := (v.bitLength + 7) / 8
  if size ≤ 3 then (v.low64 <<< UInt64.ofNat (8 * (3 - size))).toUInt32
  else (v.shiftRight (UInt32.ofNat (8 * (size - 3)))).low64.toUInt32

theorem byteLength_toNat_le (v : UInt256) : byteLength v.toNat ≤ 32 :=
  byteLength_le_iff.2 v.toNat_lt

/-- They are the mantissa of the number next to its size. -/
theorem toNat_leadingWord (v : UInt256) :
    (leadingWord v).toNat = leading v.toNat (byteLength v.toNat) := by
  have size : (v.bitLength + 7) / 8 = byteLength v.toNat := by rw [v.bitLength_eq, byteLength]
  have bytes := byteLength_toNat_le v
  have below := leading_byteLength_lt v.toNat
  rw [leadingWord, size]
  split
  next small =>
    -- three bytes are within the low 64 bits, where no shift of them is cut off
    have number : v.toNat < 2 ^ 64 := by
      have fits : v.toNat < 256 ^ 3 := byteLength_le_iff.1 small
      omega
    have shift : (UInt64.ofNat (8 * (3 - byteLength v.toNat))).toNat % 64 =
        8 * (3 - byteLength v.toNat) := by
      rw [UInt64.toNat_ofNat']
      omega
    rw [UInt64.toNat_toUInt32, UInt64.toNat_shiftLeft, shift, v.toNat_low64,
      Nat.mod_eq_of_lt number, shiftLeft_bytes small]
    change leading v.toNat (byteLength v.toNat) % 2 ^ 64 % 2 ^ 32 = _
    omega
  next large =>
    have shift :
        (UInt32.ofNat (8 * (byteLength v.toNat - 3))).toNat = 8 * (byteLength v.toNat - 3) := by
      rw [UInt32.toNat_ofNat']
      omega
    rw [UInt64.toNat_toUInt32, Wide.toNat_low64, v.toNat_shiftRight, shift,
      ← Nat.shiftRight_eq_div_pow, shiftRight_bytes (Nat.le_of_not_le large)]
    change leading v.toNat (byteLength v.toNat) % 2 ^ 64 % 2 ^ 32 = _
    omega

/-! ## The form -/

/-- The word encoder, with the test of the sign bit as its only branch. -/
theorem ofUInt256_eq (v : UInt256) :
    ofUInt256 v =
      if leadingWord v &&& 0x00800000 ≠ 0 then
        ⟨(leadingWord v >>> 8) ||| (UInt32.ofNat ((v.bitLength + 7) / 8 + 1) <<< 24)⟩
      else ⟨leadingWord v ||| (UInt32.ofNat ((v.bitLength + 7) / 8) <<< 24)⟩ := rfl

/-- The form holds the fields of the number. -/
theorem toNat_compact_ofUInt256 (v : UInt256) :
    (ofUInt256 v).compact.toNat = (fields v.toNat).1 * 0x1000000 + (fields v.toNat).2 := by
  have size : (v.bitLength + 7) / 8 = byteLength v.toNat := by rw [v.bitLength_eq, byteLength]
  have bytes := byteLength_toNat_le v
  have word := toNat_leadingWord v
  have below : (leadingWord v).toNat < 2 ^ 24 := word ▸ leading_byteLength_lt v.toNat
  rw [ofUInt256_eq, size]
  rcases fields_cases v.toNat with ⟨signed, fields⟩ | ⟨free, fields⟩ <;> rw [fields]
  · have shorter : (leadingWord v >>> 8).toNat = leading v.toNat (byteLength v.toNat + 1) := by
      rw [UInt32.toNat_shiftRight, word, leading_succ]
      exact Nat.shiftRight_eq_div_pow _ 8
    rw [if_pos ((and_signBit_iff below).2 (word ▸ signed)),
      toNat_or_shiftLeft (by rw [shorter, leading_succ]; omega) (by omega), shorter]
  · rw [if_neg (mt (and_signBit_iff below).1 (Nat.not_le.2 (word ▸ free))),
      toNat_or_shiftLeft below (by omega), word]

/-- A number of 256 bits is short enough for the 32-bit sizes of the encoder. -/
theorem fitsWords_toNat (v : UInt256) : FitsWords v.toNat := by
  have below : v.toNat < 2 ^ 256 := by
    have := v.toNat_lt
    omega
  exact FitsWords.of_lt below (by decide)

/-- Encoding on words and encoding of the number come to the same form. -/
theorem ofInt?_toNat (v : UInt256) : ofInt? (v.toNat : Int) = .ok (ofUInt256 v) := by
  obtain ⟨size, fields, free⟩ := fields_eq v.toNat
  have form := toNat_compact_ofUInt256 v
  have bounded : (Target.fields v.toNat).1 ≤ 33 := by
    have bytes := byteLength_toNat_le v
    rcases fields_cases v.toNat with ⟨-, fields⟩ | ⟨-, fields⟩ <;> rw [fields] <;>
      dsimp only <;> omega
  rw [fields] at form bounded
  dsimp only at form bounded
  rw [ofInt?_eq_ok_iff (fitsWords_toNat v), Int.natAbs_natCast, fields, exponent, mantissa,
    signBit, form]
  refine ⟨by omega, by dsimp only; omega, by dsimp only; omega, ?_⟩
  rw [decide_eq_decide]
  omega

/-- **Targets of fixed width.** Every value of 256 bits has a compact form, the one of its number,
and the value of that form is one of 256 bits that is not larger: what the form keeps of the
number. -/
theorem ofUInt256_agrees (v : UInt256) :
    ofInt? (v.toNat : Int) = .ok (ofUInt256 v) ∧
      ∃ x, (ofUInt256 v).toUInt256? = .ok x ∧
        x.toNat = kept v.toNat ∧ x.toNat ≤ v.toNat := by
  have form := ofInt?_toNat v
  have value : (ofUInt256 v).toInt = kept v.toNat := by
    rw [toInt_of_ofInt? (fitsWords_toNat v) form, if_neg (by omega), Int.natAbs_natCast]
  have less := kept_le v.toNat
  have fits : kept v.toNat < 256 ^ (4 * 8) := less.trans_lt v.toNat_lt
  have held := Wide.ofNat?_eq_ok_iff.2 ⟨fits, rfl⟩
  refine ⟨form, Wide.ofNat (kept v.toNat), ?_, Wide.toNat_of_ofNat? held, ?_⟩
  · rw [toUInt256?, value, if_neg (by omega), Int.natAbs_natCast, held]
  · rw [Wide.toNat_of_ofNat? held]
    exact less

end BlockRules.Target
