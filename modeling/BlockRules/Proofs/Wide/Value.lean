import Mathlib
import BlockRules.Proofs.Wide.Shifts
import BlockRules.Proofs.Wide.Text

/-!
# Words by their places

A wide integer is its words, each counted by its place (`Wide.value`), and this is the number that
all of its operations are about: shifts, order, highest bit, bytes, and the way from numbers and
back (`Wide.computes_on_value`).

* **places** — the sum over the places is the number whose digits the words are
  (`Wide.value_eq_toNat`), and a bit of a word is a bit of the value (`Wide.testBit_word`);
* **two words for each one** — a shift takes each word from the two that its bits come from, one
  of them moved up and the other one moved down (`Wide.word_shiftLeft`, `Wide.word_shiftRight`).
  Where a shift moves whole words only, the second one takes no part.
-/

namespace BlockRules

/-- The value as a weighted sum of the words. -/
theorem wordsToNat_eq_sum (ws : List UInt32) :
    wordsToNat ws = ∑ i ∈ Finset.range ws.length, (ws.getD i 0).toNat * 2 ^ (32 * i) := by
  induction ws with
  | nil => rfl
  | cons w ws ih =>
    have above : 2 ^ 32 * ∑ i ∈ Finset.range ws.length, (ws.getD i 0).toNat * 2 ^ (32 * i) =
        ∑ i ∈ Finset.range ws.length, (ws.getD i 0).toNat * 2 ^ (32 * (i + 1)) := by
      rw [Finset.mul_sum]
      refine Finset.sum_congr rfl fun i _ => ?_
      ring
    rw [List.length_cons, Finset.sum_range_succ', wordsToNat, ih, Nat.mul_zero, Nat.pow_zero,
      Nat.mul_one, Nat.add_comm]
    exact congrArg (· + w.toNat) above

namespace Wide

variable {n : Nat}

/-- The word at a place, the least significant one first. There is nothing beyond the last one. -/
def word (x : Wide n) (i : Nat) : UInt32 := x.words.getD i 0

/-- The words counted by their places. -/
def value (x : Wide n) : Nat := ∑ i ∈ Finset.range n, (x.word i).toNat * 2 ^ (32 * i)

theorem value_eq_toNat (x : Wide n) : x.value = x.toNat := by
  obtain ⟨ws, rfl⟩ := x
  exact (wordsToNat_eq_sum ws).symm

theorem lt_two_pow (x : Wide n) : x.toNat < 2 ^ (32 * n) := by
  rw [Nat.pow_mul]
  exact x.toNat_lt

/-! ## Bits -/

/-- A word is a digit of the number to the base `2 ^ 32`. -/
theorem toNat_word (x : Wide n) (i : Nat) : (x.word i).toNat = x.toNat / 2 ^ (32 * i) % 2 ^ 32 := by
  rw [toNat, Nat.pow_mul, ← wordsToNat_drop, ← headD_eq_mod, List.headD_eq_head?_getD,
    List.head?_drop, ← List.getD_eq_getElem?_getD]
  rfl

/-- The bits of a word are those of the value from its place on. -/
theorem testBit_word (x : Wide n) (i j : Nat) :
    (x.word i).toNat.testBit j = (decide (j < 32) && x.toNat.testBit (32 * i + j)) := by
  rw [toNat_word, Nat.testBit_mod_two_pow, Nat.testBit_div_two_pow, Nat.add_comm]

/-- A bit that is set in a word moved up. -/
theorem testBit_word_shiftLeft (x : Wide n) {i j : Nat} {bits : UInt32} (within : bits.toNat < 32) :
    (x.word i <<< bits).toNat.testBit j = true ↔
      bits.toNat ≤ j ∧ j < 32 ∧ x.toNat.testBit (32 * i + (j - bits.toNat)) = true := by
  rw [UInt32.toNat_shiftLeft, Nat.mod_eq_of_lt within, Nat.testBit_mod_two_pow,
    Nat.testBit_shiftLeft, testBit_word]
  simp only [Bool.and_eq_true, decide_eq_true_iff]
  exact ⟨fun ⟨small, up, _, set⟩ => ⟨up, small, set⟩,
    fun ⟨up, small, set⟩ => ⟨small, up, by omega, set⟩⟩

/-- A bit that is set in a word moved down. -/
theorem testBit_word_shiftRight (x : Wide n) {i j : Nat} {bits : UInt32}
    (within : bits.toNat < 32) :
    (x.word i >>> bits).toNat.testBit j = true ↔
      bits.toNat + j < 32 ∧ x.toNat.testBit (32 * i + (bits.toNat + j)) = true := by
  rw [UInt32.toNat_shiftRight, Nat.mod_eq_of_lt within, Nat.testBit_shiftRight, testBit_word,
    Bool.and_eq_true, decide_eq_true_iff]

/-- A bit that is set in a word that takes no part unless a condition holds. -/
theorem testBit_ite {c : Prop} [Decidable c] {w : UInt32} {j : Nat} :
    (if c then w else 0).toNat.testBit j = true ↔ c ∧ w.toNat.testBit j = true := by
  split
  next holds => rw [and_iff_right holds]
  next fails => simp [fails]

/-- The bits that remain of a shift by whole words, and those that are missing to the next one. -/
theorem toNat_bits (shift : UInt32) : (shift % 32).toNat = shift.toNat % 32 ∧
    (32 - shift % 32).toNat = 32 - shift.toNat % 32 ∧ (shift % 32 ≠ 0 ↔
      shift.toNat % 32 ≠ 0) := by
  have rest : (shift % 32).toNat = shift.toNat % 32 := UInt32.toNat_mod _ _
  refine ⟨rest, ?_, ?_⟩
  · have most : shift % 32 ≤ 32 := by
      rw [UInt32.le_iff_toNat_le, rest]
      exact (Nat.mod_lt _ (by decide)).le
    rw [UInt32.toNat_sub_of_le _ _ most, rest]
    rfl
  · rw [ne_eq, ← UInt32.toNat_inj, rest]
    rfl

/-- A word after a shift to the left is one word moved up, filled up with what leaves the word below
that one. -/
theorem word_shiftLeft (x : Wide n) (shift : UInt32) {i : Nat} (inside : i < n) :
    (x.shiftLeft shift).word i =
      (if shift.toNat / 32 ≤ i then x.word (i - shift.toNat / 32) <<< (shift % 32) else 0) |||
      (if shift.toNat / 32 + 1 ≤ i ∧ shift % 32 ≠ 0 then
        x.word (i - shift.toNat / 32 - 1) >>> (32 - shift % 32) else 0) := by
  -- bit by bit: the bit that comes to a place is in one of the two words, and its place in the word
  -- says in which
  obtain ⟨rest, missing, unaligned⟩ := toNat_bits shift
  refine UInt32.toNat_inj.1 (Nat.eq_of_testBit_eq fun j => Bool.eq_iff_iff.2 ?_)
  have upper : shift.toNat / 32 ≤ i →
      ((x.word (i - shift.toNat / 32) <<< (shift % 32)).toNat.testBit j = true ↔
        shift.toNat % 32 ≤ j ∧ j < 32 ∧
        x.toNat.testBit (32 * i + j - shift.toNat) = true) := by
    intro there
    rw [x.testBit_word_shiftLeft (by omega), rest]
    refine and_congr_right fun up => ?_
    have place :
        32 * (i - shift.toNat / 32) + (j - shift.toNat % 32) = 32 * i + j - shift.toNat := by omega
    rw [place]
  have lower : shift.toNat / 32 + 1 ≤ i ∧ shift.toNat % 32 ≠ 0 →
      ((x.word (i - shift.toNat / 32 - 1) >>> (32 - shift % 32)).toNat.testBit j = true ↔
        j < shift.toNat % 32 ∧ x.toNat.testBit (32 * i + j - shift.toNat) = true) := by
    intro there
    have place : 32 * (i - shift.toNat / 32 - 1) + (32 - shift.toNat % 32 + j) =
        32 * i + j - shift.toNat := by omega
    rw [x.testBit_word_shiftRight (by omega), missing, place]
    exact and_congr_left' (by omega)
  rw [testBit_word, toNat_shiftLeft, Nat.testBit_mod_two_pow, Nat.testBit_mul_two_pow,
    UInt32.toNat_or, Nat.testBit_or, Bool.or_eq_true, testBit_ite, testBit_ite, unaligned,
    and_congr_right upper, and_congr_right lower]
  simp only [Bool.and_eq_true, decide_eq_true_iff]
  by_cases set : x.toNat.testBit (32 * i + j - shift.toNat) = true
  · simp only [set, and_true]
    omega
  · simp [set]

/-- A word after a shift to the right is one word moved down, filled up with what leaves the word
above that one. -/
theorem word_shiftRight (x : Wide n) (shift : UInt32) (i : Nat) :
    (x.shiftRight shift).word i =
      (if i + shift.toNat / 32 < n then x.word (i + shift.toNat / 32) >>> (shift % 32) else 0) |||
      (if i + shift.toNat / 32 + 1 < n ∧ shift % 32 ≠ 0 then
        x.word (i + shift.toNat / 32 + 1) <<< (32 - shift % 32) else 0) := by
  obtain ⟨rest, missing, unaligned⟩ := toNat_bits shift
  refine UInt32.toNat_inj.1 (Nat.eq_of_testBit_eq fun j => Bool.eq_iff_iff.2 ?_)
  have lower : (x.word (i + shift.toNat / 32) >>> (shift % 32)).toNat.testBit j = true ↔
      shift.toNat % 32 + j < 32 ∧ x.toNat.testBit (32 * i + j + shift.toNat) = true := by
    have place :
        32 * (i + shift.toNat / 32) + (shift.toNat % 32 + j) = 32 * i + j + shift.toNat := by omega
    rw [x.testBit_word_shiftRight (by omega), rest, place]
  have upper : i + shift.toNat / 32 + 1 < n ∧ shift.toNat % 32 ≠ 0 →
      ((x.word (i + shift.toNat / 32 + 1) <<< (32 - shift % 32)).toNat.testBit j = true ↔
        32 - shift.toNat % 32 ≤ j ∧ j < 32 ∧
        x.toNat.testBit (32 * i + j + shift.toNat) = true) := by
    intro there
    rw [x.testBit_word_shiftLeft (by omega), missing]
    refine and_congr_right fun up => ?_
    have place : 32 * (i + shift.toNat / 32 + 1) + (j - (32 - shift.toNat % 32)) =
        32 * i + j + shift.toNat := by omega
    rw [place]
  rw [testBit_word, toNat_shiftRight, Nat.testBit_div_two_pow, UInt32.toNat_or, Nat.testBit_or,
    Bool.or_eq_true, testBit_ite, testBit_ite, unaligned, lower, and_congr_right upper]
  simp only [Bool.and_eq_true, decide_eq_true_iff]
  by_cases set : x.toNat.testBit (32 * i + j + shift.toNat) = true
  · -- the words that are looked at exist, since a bit that is set is in one of them
    have below : 32 * i + j + shift.toNat < 32 * n := by
      by_contra beyond
      have small :=
        x.lt_two_pow.trans_le (Nat.pow_le_pow_right (by decide) (Nat.le_of_not_lt beyond))
      rw [Nat.testBit_lt_two_pow small] at set
      cases set
    simp only [set, and_true]
    omega
  · simp [set]

/-! ## The value -/

theorem bitLength_le_iff (x : Wide n) {k : Nat} : x.bitLength ≤ k ↔ x.toNat < 2 ^ k := by
  rw [bitLength_eq, BlockRules.bitLength_le_iff]

/-- A number fits the type if its bytes are no more than those of the words. -/
theorem byteLength_le_four_mul_iff {k : Nat} : byteLength k ≤ 4 * n ↔ k < 2 ^ (32 * n) := by
  have bytes : (256 : Nat) ^ (4 * n) = 2 ^ (32 * n) := by
    rw [Nat.pow_mul, Nat.pow_mul]
  rw [byteLength_le_iff, bytes]

/-- A number that fits is the number of the value it gives. -/
theorem ofNat?_eq_ok_iff_toNat {k : Nat} {x : Wide n} : ofNat? k = .ok x ↔ x.toNat = k := by
  constructor
  · exact toNat_of_ofNat?
  · rintro rfl
    rw [ofNat?, if_pos (byteLength_le_four_mul_iff.2 x.lt_two_pow), ofNat_toNat]

/-- A number that is too large is refused, with its size in the message. -/
theorem ofNat?_of_le {k : Nat} (wide : 2 ^ (32 * n) ≤ k) :
    (ofNat? k : Except FormatError (Wide n)) = .error (.tooWide (32 * n) (byteLength k)) :=
  if_neg fun fits => Nat.not_lt.2 wide (byteLength_le_four_mul_iff.1 fits)

/-- **Wide integers are their values.** A shift to the left multiplies by a power of two and keeps
what the words can hold, and one to the right divides and rounds down, whatever the shift. Values
are ordered by number, and the highest bit is where the number ends. The number is also what the
bytes stand for. A number below the bound of the words is the value of one wide integer, and a
greater one is refused with the number of bytes it takes. -/
theorem computes_on_value (n : Nat) :
    (∀ (x : Wide n) (shift : UInt32),
      (x.shiftLeft shift).value = x.value * 2 ^ shift.toNat % 2 ^ (32 * n) ∧
      (x.shiftRight shift).value = x.value / 2 ^ shift.toNat) ∧
    (∀ x y : Wide n, x.cmp y = compare x.value y.value) ∧
    (∀ x : Wide n, IsLeast {k | x.value < 2 ^ k} x.bitLength) ∧
    (∀ x : Wide n, x.toNat = x.value ∧ Bytes.toNat (x.toBytes true) = x.value) ∧
    (∀ k (x : Wide n), ofNat? k = .ok x ↔ x.value = k) ∧
    (∀ k, k < 2 ^ (32 * n) ↔ ∃ x : Wide n, ofNat? k = .ok x) ∧
    ∀ k, 2 ^ (32 * n) ≤ k ↔
      (ofNat? k : Except FormatError (Wide n)) = .error (.tooWide (32 * n) (byteLength k)) := by
  simp only [value_eq_toNat, true_and]
  have given : ∀ k, k < 2 ^ (32 * n) → ∃ x : Wide n, ofNat? k = .ok x :=
    fun k fits => ⟨ofNat k, if_pos (byteLength_le_four_mul_iff.2 fits)⟩
  refine ⟨fun x shift => ⟨x.toNat_shiftLeft shift, x.toNat_shiftRight shift⟩, cmp_eq, ?_,
    toNat_bytesLE, fun k x => ofNat?_eq_ok_iff_toNat, fun k => ⟨given k, ?_⟩,
    fun k => ⟨ofNat?_of_le, ?_⟩⟩
  · intro x
    exact ⟨x.bitLength_le_iff.1 le_rfl, fun k reached => x.bitLength_le_iff.2 reached⟩
  · rintro ⟨x, fits⟩
    rw [← ofNat?_eq_ok_iff_toNat.1 fits]
    exact x.lt_two_pow
  · intro refused
    by_contra fits
    obtain ⟨x, read⟩ := given k (Nat.lt_of_not_le fits)
    cases read.symm.trans refused

/-- Bits that leave one word enter the next, and those that leave the last one are lost. -/
example : (ofNat 0x8000000080000000 : Wide 2).shiftLeft 1 = ofNat 0x100000000 := by decide +kernel

end Wide

end BlockRules
