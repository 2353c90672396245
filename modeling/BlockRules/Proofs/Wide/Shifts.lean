import Mathlib
import BlockRules.Wide.Lemmas

/-!
# Moving words

Words that are left out at the bottom divide a number, and words that are left out at the top reduce
it (`wordsToNat_drop`, `wordsToNat_take`). A shift to the right leaves out whole words and moves the
others by the bits that remain, each one filled up from the next (`wordsToNat_carryDown`), so that
it divides by a power of two whatever the shift (`Wide.toNat_shiftRight`). A shift to the left puts
zeros below the words and carries what leaves one word at the top into the next
(`wordsToNat_carryUp`), so that it multiplies by a power of two, up to what leaves the last word
(`Wide.toNat_shiftLeft`).

The low 64 bits and the position of the highest bit are read off the words in the same way
(`Wide.toNat_low64`, `Wide.bitLength_eq`).
-/

namespace BlockRules

variable {low high shift : Nat}

/-! ## Words left out -/

theorem wordsToNat_take_lt (ws : List UInt32) (count : Nat) :
    wordsToNat (ws.take count) < (2 ^ 32) ^ count :=
  (wordsToNat_lt _).trans_le (Nat.pow_le_pow_right (by decide) (List.length_take_le count ws))

/-- The words below a place and those from there on are two digits. -/
theorem wordsToNat_take_add_drop (ws : List UInt32) (count : Nat) :
    wordsToNat (ws.take count) + (2 ^ 32) ^ count * wordsToNat (ws.drop count) = wordsToNat ws := by
  rcases Nat.le_total ws.length count with all | some
  · rw [List.take_of_length_le all, List.drop_of_length_le all, wordsToNat, Nat.mul_zero,
      Nat.add_zero]
  · have parts := wordsToNat_append (ws.take count) (ws.drop count)
    rw [List.take_append_drop, List.length_take_of_le some] at parts
    exact parts.symm

theorem wordsToNat_drop (ws : List UInt32) (count : Nat) :
    wordsToNat (ws.drop count) = wordsToNat ws / (2 ^ 32) ^ count := by
  rw [← wordsToNat_take_add_drop ws count, Nat.add_mul_div_left _ _ (Nat.pow_pos (by decide)),
    Nat.div_eq_of_lt (wordsToNat_take_lt ws count), Nat.zero_add]

theorem wordsToNat_take (ws : List UInt32) (count : Nat) :
    wordsToNat (ws.take count) = wordsToNat ws % (2 ^ 32) ^ count := by
  rw [← wordsToNat_take_add_drop ws count, Nat.add_mul_mod_self_left,
    Nat.mod_eq_of_lt (wordsToNat_take_lt ws count)]

theorem wordsToNat_replicate_zero (count : Nat) : wordsToNat (List.replicate count 0) = 0 := by
  induction count with
  | zero => rfl
  | succ count ih =>
    rw [List.replicate_succ, wordsToNat, ih]
    rfl

/-! ## The highest bit -/

theorem bitLength_eq_zero_iff {n : Nat} : bitLength n = 0 ↔ n = 0 := by
  rw [← Nat.le_zero, bitLength_le_iff]
  omega

/-- The highest bit of a number of two digits is in the higher one, if there is one. -/
theorem bitLength_digits (below : low < 2 ^ 32) :
    bitLength (low + 2 ^ 32 * high) = if high = 0 then bitLength low else 32 + bitLength high := by
  split
  next none => rw [none, Nat.mul_zero, Nat.add_zero]
  next some =>
    refine eq_of_forall_ge_iff fun k => ?_
    rw [bitLength_le_iff]
    rcases Nat.lt_or_ge k 32 with small | large
    · have bound : 2 ^ k ≤ 2 ^ 32 := Nat.pow_le_pow_right (by decide) small.le
      omega
    · obtain ⟨k, rfl⟩ := Nat.exists_eq_add_of_le large
      rw [Nat.add_le_add_iff_left, bitLength_le_iff, Nat.pow_add]
      omega

/-- The highest bit, searched word by word, is the length of the number in bits. -/
theorem highestBit_eq (ws : List UInt32) : highestBit ws = bitLength (wordsToNat ws) := by
  induction ws with
  | nil => rfl
  | cons w ws ih =>
    have digits := @bitLength_digits w.toNat (wordsToNat ws) w.toNat_lt
    rw [wordsToNat, highestBit]
    simp only [ih, bitLength_eq_zero_iff]
    exact digits.symm

/-! ## Shifting -/

/-- Dividing a number of two digits: the lower digit is filled up with the low bits of the higher
one. -/
theorem digits_div (below : low < 2 ^ 32) (within : shift ≤ 32) :
    (low + 2 ^ 32 * (high % 2 ^ 32)) / 2 ^ shift % 2 ^ 32 + 2 ^ 32 * (high / 2 ^ shift) =
      (low + 2 ^ 32 * high) / 2 ^ shift := by
  have positive : 0 < 2 ^ shift := Nat.pow_pos (by decide)
  have word : 2 ^ 32 = 2 ^ shift * 2 ^ (32 - shift) := by
    rw [← Nat.pow_add, Nat.add_sub_cancel' within]
  -- the words above the lower two stay above them
  have above : 2 ^ 32 * high =
      2 ^ 32 * (high % 2 ^ 32) + 2 ^ shift * (2 ^ 32 * (2 ^ (32 - shift) * (high / 2 ^ 32))) := by
    rw [Nat.mul_left_comm (2 ^ shift), ← Nat.mul_assoc (2 ^ shift), ← word, ← Nat.mul_add,
      Nat.mod_add_div]
  have lower : (low + 2 ^ 32 * high) / 2 ^ shift % 2 ^ 32 =
      (low + 2 ^ 32 * (high % 2 ^ 32)) / 2 ^ shift % 2 ^ 32 := by
    rw [above, ← Nat.add_assoc, Nat.add_mul_div_left _ _ positive, Nat.add_mul_mod_self_left]
  have upper : (low + 2 ^ 32 * high) / 2 ^ shift / 2 ^ 32 = high / 2 ^ shift := by
    rw [Nat.div_right_comm, Nat.add_mul_div_left _ _ (by decide), Nat.div_eq_of_lt below,
      Nat.zero_add]
  rw [← lower, ← upper, Nat.mod_add_div]

theorem headD_eq_mod (ws : List UInt32) : (ws.headD 0).toNat = wordsToNat ws % 2 ^ 32 := by
  rcases ws with _ | ⟨w, ws⟩
  · rfl
  · have below := w.toNat_lt
    rw [List.headD_cons, wordsToNat]
    omega

/-- Carrying bits down from word to word divides by a power of two. -/
theorem wordsToNat_carryDown (within : shift ≤ 32) (ws : List UInt32) :
    wordsToNat (carryDown shift ws) = wordsToNat ws / 2 ^ shift := by
  induction ws with
  | nil => exact (Nat.zero_div _).symm
  | cons w ws ih =>
    rw [carryDown, wordsToNat, wordsToNat, ih, UInt32.toNat_ofNat', Nat.shiftRight_eq_div_pow,
      headD_eq_mod]
    exact digits_div w.toNat_lt within

/-- Multiplying a number of two digits: what leaves the lower digit at the top enters the higher
one. -/
theorem digits_mul (carry bound : Nat) :
    (low * 2 ^ shift + carry) % 2 ^ 32 +
        2 ^ 32 * ((high * 2 ^ shift + (low * 2 ^ shift + carry) / 2 ^ 32) % bound) =
      ((low + 2 ^ 32 * high) * 2 ^ shift + carry) % (2 ^ 32 * bound) := by
  have regroup : (low + 2 ^ 32 * high) * 2 ^ shift + carry =
      low * 2 ^ shift + carry + 2 ^ 32 * (high * 2 ^ shift) := by ring
  rw [regroup, Nat.mod_mul, Nat.add_mul_mod_self_left, Nat.add_mul_div_left _ _ (by decide),
    Nat.add_comm (high * _)]

/-- Carrying bits up multiplies; what leaves the highest word is lost. -/
theorem wordsToNat_carryUp (carry : Nat) (ws : List UInt32) :
    wordsToNat (carryUp shift carry ws) = (wordsToNat ws * 2 ^ shift + carry) %
      (2 ^ 32) ^ ws.length := by
  induction ws generalizing carry with
  | nil => exact (Nat.mod_one _).symm
  | cons w ws ih =>
    have split : (2 ^ 32) ^ (ws.length + 1) = 2 ^ 32 * (2 ^ 32) ^ ws.length := Nat.pow_succ'
    rw [carryUp, wordsToNat, wordsToNat, ih, UInt32.toNat_ofNat', Nat.shiftLeft_eq,
      List.length_cons, split]
    exact digits_mul carry _

namespace Wide

variable {n : Nat}

theorem bitLength_eq (x : Wide n) : x.bitLength = BlockRules.bitLength x.toNat :=
  highestBit_eq x.words

theorem toNat_low64 (x : Wide n) : x.low64.toNat = x.toNat % 2 ^ 64 := by
  rw [low64, UInt64.toNat_ofNat', wordsToNat_take, ← Nat.pow_mul, Nat.mod_mod]
  rfl

/-- **A shift to the right divides by a power of two.** -/
theorem toNat_shiftRight (x : Wide n) (shift : UInt32) :
    (x.shiftRight shift).toNat = x.toNat / 2 ^ shift.toNat := by
  have moved : x.words.drop (min (shift.toNat / 32) n) = x.words.drop (shift.toNat / 32) := by
    rw [List.drop_eq_drop_iff, x.length_words, min_assoc, min_self]
  have parts : (2 ^ 32) ^ (shift.toNat / 32) * 2 ^ (shift.toNat % 32) = 2 ^ shift.toNat := by
    rw [← Nat.pow_mul, ← Nat.pow_add, Nat.div_add_mod]
  rw [toNat, shiftRight]
  dsimp only
  rw [moved, wordsToNat_append, wordsToNat_replicate_zero, Nat.mul_zero, Nat.add_zero,
    wordsToNat_carryDown (Nat.mod_lt _ (by decide)).le, wordsToNat_drop,
    Nat.div_div_eq_div_mul, parts]
  rfl

/-- **A shift to the left multiplies by a power of two**, as far as the words can hold it. -/
theorem toNat_shiftLeft (x : Wide n) (shift : UInt32) :
    (x.shiftLeft shift).toNat = x.toNat * 2 ^ shift.toNat % 2 ^ (32 * n) := by
  obtain ⟨moved, known⟩ : ∃ moved, moved = min (shift.toNat / 32) n := ⟨_, rfl⟩
  have inside : moved ≤ n := known ▸ Nat.min_le_right _ _
  have kept : (x.words.take (n - moved)).length = n - moved :=
    List.length_take_of_le (x.length_words.symm ▸ Nat.sub_le n moved)
  have words : (x.shiftLeft shift).toNat =
      (2 ^ 32) ^ moved * (x.toNat * 2 ^ (shift.toNat % 32)) %
        ((2 ^ 32) ^ moved * (2 ^ 32) ^ (n - moved)) := by
    rw [toNat, shiftLeft]
    dsimp only
    rw [← known, wordsToNat_append, wordsToNat_replicate_zero, wordsToNat_carryUp,
      wordsToNat_take, kept, List.length_replicate, Nat.zero_add, Nat.add_zero, Nat.mod_mul_mod,
      Nat.mul_mod_mul_left]
    rfl
  have width : (2 ^ 32) ^ moved * (2 ^ 32) ^ (n - moved) = 2 ^ (32 * n) := by
    rw [← Nat.pow_add, Nat.add_sub_cancel' inside, Nat.pow_mul]
  have factor : (2 ^ 32) ^ moved * (x.toNat * 2 ^ (shift.toNat % 32)) =
      x.toNat * 2 ^ (32 * moved + shift.toNat % 32) := by
    rw [Nat.mul_left_comm, ← Nat.pow_mul, ← Nat.pow_add]
  rw [words, width, factor]
  rcases Nat.le_total (shift.toNat / 32) n with whole | all
  · rw [known, Nat.min_eq_left whole, Nat.div_add_mod]
  · -- no word is left
    have gone : ∀ count, 32 * n ≤ count → x.toNat * 2 ^ count % 2 ^ (32 * n) = 0 := by
      intro count large
      exact Nat.mod_eq_zero_of_dvd (Dvd.dvd.mul_left (Nat.pow_dvd_pow 2 large) _)
    have beyond : 32 * n ≤ shift.toNat := by omega
    rw [known, Nat.min_eq_right all, gone _ (Nat.le_add_right _ _), gone _ beyond]

end Wide

end BlockRules
