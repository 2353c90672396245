import Mathlib
import BlockRules.Bytes.Lemmas
import BlockRules.Wide

/-!
# Words as digits

Words are the digits of a number in base `2 ^ 32`. A number cut into words is recovered
up to a multiple of what they can hold (`wordsToNat_natToWords`, `Wide.toNat_ofNat`), and words
are recovered from their number (`Wide.ofNat_toNat`). The order of words is the order of the
numbers (`Wide.le_iff`).

A value and its bytes determine each other (`Wide.ofBytesLE_bytesLE`,
`Wide.bytesLE_ofBytesLE`).
-/

namespace BlockRules

theorem bitLength_le_iff {n k : Nat} : bitLength n ≤ k ↔ n < 2 ^ k := by
  rw [bitLength]
  split
  next zero => simp [zero]
  next nonzero => exact Nat.log2_lt nonzero

theorem byteLength_le_iff {n k : Nat} : byteLength n ≤ k ↔ n < 256 ^ k := by
  have bytes : 256 ^ k = 2 ^ (8 * k) := by rw [Nat.pow_mul]
  rw [bytes, ← bitLength_le_iff, byteLength]
  omega

theorem wordsToNat_lt (ws : List UInt32) : wordsToNat ws < (2 ^ 32) ^ ws.length := by
  induction ws with
  | nil => exact Nat.one_pos
  | cons w ws ih =>
    have word := w.toNat_lt
    rw [wordsToNat, List.length_cons, Nat.pow_succ']
    omega

/-- Words behind others weigh `2 ^ 32` for each word in front of them. -/
theorem wordsToNat_append (ws vs : List UInt32) :
    wordsToNat (ws ++ vs) = wordsToNat ws + (2 ^ 32) ^ ws.length * wordsToNat vs := by
  induction ws with
  | nil => simp [wordsToNat]
  | cons w ws ih =>
    rw [List.cons_append, wordsToNat, wordsToNat, ih, List.length_cons]
    ring

/-- Cutting a number into words keeps it up to their number. -/
theorem wordsToNat_natToWords (count n : Nat) :
    wordsToNat (natToWords count n) = n % (2 ^ 32) ^ count := by
  induction count generalizing n with
  | zero => simp [natToWords, wordsToNat, Nat.mod_one]
  | succ count ih =>
    have word : (UInt32.ofNat n).toNat = n % 2 ^ 32 := UInt32.toNat_ofNat'
    have split : (2 ^ 32) ^ (count + 1) = 2 ^ 32 * (2 ^ 32) ^ count := Nat.pow_succ'
    rw [natToWords, wordsToNat, ih, word, split]
    exact Nat.mod_mul.symm

/-- Words are recovered from the number that they are the digits of. -/
theorem natToWords_wordsToNat (ws : List UInt32) : natToWords ws.length (wordsToNat ws) = ws := by
  induction ws with
  | nil => rfl
  | cons w ws ih =>
    have below := w.toNat_lt
    have low : UInt32.ofNat (w.toNat + 0x100000000 * wordsToNat ws) = w := by
      rw [← UInt32.toNat_inj, UInt32.toNat_ofNat']
      omega
    have high : (w.toNat + 0x100000000 * wordsToNat ws) / 0x100000000 = wordsToNat ws := by omega
    rw [List.length_cons, natToWords, wordsToNat, low, high, ih]

/-! ### Order -/

/-- The higher digit decides an order of numbers of two digits, unless it is the same. -/
theorem compare_digits {base low low' high high' : Nat} (below : low < base)
    (below' : low' < base) :
    compare (low + base * high) (low' + base * high') =
      (compare high high').then (compare low low') := by
  cases order : compare high high' with
  | lt =>
    rw [Nat.compare_eq_lt] at order
    have step : base * (high + 1) ≤ base * high' := Nat.mul_le_mul_left base order
    rw [Nat.mul_succ] at step
    exact Nat.compare_eq_lt.2 (by omega)
  | gt =>
    rw [Nat.compare_eq_gt] at order
    have step : base * (high' + 1) ≤ base * high := Nat.mul_le_mul_left base order
    rw [Nat.mul_succ] at step
    exact Nat.compare_eq_gt.2 (by omega)
  | eq =>
    obtain rfl := Nat.compare_eq_eq.1 order
    rw [Ordering.eq_then]
    cases rest : compare low low' with
    | lt => exact Nat.compare_eq_lt.2 (Nat.add_lt_add_right (Nat.compare_eq_lt.1 rest) _)
    | gt => exact Nat.compare_eq_gt.2 (Nat.add_lt_add_right (Nat.compare_eq_gt.1 rest) _)
    | eq => exact Nat.compare_eq_eq.2 (congrArg (· + _) (Nat.compare_eq_eq.1 rest))

/-- Words compare as the numbers they are the digits of. -/
theorem compareWords_reverse (as bs : List UInt32) (same : as.length = bs.length) :
    compareWords as bs = compare (wordsToNat as.reverse) (wordsToNat bs.reverse) := by
  induction as generalizing bs with
  | nil =>
    obtain rfl := List.eq_nil_of_length_eq_zero same.symm
    rfl
  | cons a as ih =>
    rcases bs with _ | ⟨b, bs⟩
    · cases same
    · have same' : as.length = bs.length := Nat.succ.inj same
      have low := wordsToNat_lt as.reverse
      have low' := wordsToNat_lt bs.reverse
      rw [List.length_reverse] at low low'
      rw [← same'] at low'
      rw [compareWords, ih bs same', UInt32.compare_eq_toNat_compare_toNat, List.reverse_cons,
        List.reverse_cons, wordsToNat_append, wordsToNat_append, List.length_reverse,
        List.length_reverse, ← same', compare_digits low low']
      rfl

namespace Wide

theorem toNat_ofNat {n : Nat} (v : Nat) : (ofNat v : Wide n).toNat = v % (2 ^ 32) ^ n :=
  wordsToNat_natToWords n v

theorem toNat_lt {n : Nat} (x : Wide n) : x.toNat < (2 ^ 32) ^ n := by
  have bound := wordsToNat_lt x.words
  rwa [x.length_words] at bound

theorem ofNat_toNat {n : Nat} (x : Wide n) : ofNat x.toNat = x := by
  have words : natToWords n (wordsToNat x.words) = x.words := by
    have back := natToWords_wordsToNat x.words
    rwa [x.length_words] at back
  cases x
  simp only [ofNat, toNat, Wide.mk.injEq]
  exact words

/-- A value is determined by its number. -/
theorem toNat_injective {n : Nat} : Function.Injective (toNat : Wide n → Nat) :=
  Function.LeftInverse.injective ofNat_toNat

/-- Comparing word by word from the highest is comparing the numbers. -/
theorem cmp_eq {n : Nat} (x y : Wide n) : x.cmp y = compare x.toNat y.toNat := by
  have same : x.words.reverse.length = y.words.reverse.length := by
    rw [List.length_reverse, List.length_reverse, x.length_words, y.length_words]
  rw [cmp, compareWords_reverse _ _ same, List.reverse_reverse, List.reverse_reverse]
  rfl

theorem le_iff {n : Nat} {x y : Wide n} : x.le y = true ↔ x.toNat ≤ y.toNat := by
  rw [le, cmp_eq, Nat.isLE_compare]

/-- A number is taken in exactly if its bytes have room. -/
theorem ofNat?_eq_ok_iff {n v : Nat} {x : Wide n} :
    ofNat? v = .ok x ↔ v < 256 ^ (4 * n) ∧ x = ofNat v := by
  rw [ofNat?, ← byteLength_le_iff]
  split
  next fits => simp [fits, eq_comm]
  next wide => simp [wide]

theorem toNat_of_ofNat? {n v : Nat} {x : Wide n} (given : ofNat? v = .ok x) : x.toNat = v := by
  obtain ⟨fits, rfl⟩ := ofNat?_eq_ok_iff.1 given
  have words : (256 : Nat) ^ (4 * n) = (2 ^ 32) ^ n := by
    rw [Nat.pow_mul]
    norm_num
  rw [toNat_ofNat, Nat.mod_eq_of_lt (words ▸ fits)]

/-- A value without a set bit is zero. -/
theorem eq_zero_of_isZero {n : Nat} {x : Wide n} (zeros : x.isZero = true) : x = zero := by
  have cut : ∀ count, natToWords count 0 = List.replicate count 0 := by
    intro count
    induction count with
    | zero => rfl
    | succ count ih =>
      rw [natToWords, Nat.zero_div, ih]
      rfl
  have words : x.words = List.replicate n 0 := by
    rw [List.eq_replicate_iff]
    refine ⟨x.length_words, ?_⟩
    simpa [isZero] using zeros
  cases x
  simp only [zero, ofNat, cut, Wide.mk.injEq]
  exact words

/-- Words are read back from their bytes. -/
theorem wordsOfBytes_flatMap (ws : List UInt32) :
    wordsOfBytes ws.length (ws.flatMap fun w => Bytes.ofNat 4 w.toNat) = ws := by
  induction ws with
  | nil => rfl
  | cons w ws ih =>
    have small : w.toNat % 256 ^ 4 = w.toNat := Nat.mod_eq_of_lt w.toNat_lt
    rw [List.flatMap_cons, List.length_cons, wordsOfBytes,
      List.take_append_of_le_length (Bytes.length_ofNat 4 _).ge,
      List.take_of_length_le (Bytes.length_ofNat 4 _).le,
      List.drop_append_of_le_length (Bytes.length_ofNat 4 _).ge,
      List.drop_of_length_le (Bytes.length_ofNat 4 _).le, List.nil_append, ih,
      Bytes.toNat_ofNat, small, UInt32.ofNat_toNat]

/-- Four bytes for each word give these bytes back. -/
theorem flatMap_wordsOfBytes {count : Nat} {bs : Bytes} (long : bs.length = 4 * count) :
    (wordsOfBytes count bs).flatMap (fun w => Bytes.ofNat 4 w.toNat) = bs := by
  induction count generalizing bs with
  | zero =>
    obtain rfl := List.eq_nil_of_length_eq_zero long
    rfl
  | succ count ih =>
    have front : (bs.take 4).length = 4 := by
      rw [List.length_take]
      omega
    have small : Bytes.toNat (bs.take 4) < 2 ^ 32 := by
      have bound := Bytes.toNat_lt (bs.take 4)
      rw [front] at bound
      exact bound
    have word : Bytes.ofNat 4 (Bytes.toNat (bs.take 4)) = bs.take 4 := by
      have back := Bytes.ofNat_toNat (bs.take 4)
      rw [front] at back
      exact back
    have back : (wordsOfBytes count (bs.drop 4)).flatMap (fun w => Bytes.ofNat 4 w.toNat)
        = bs.drop 4 := by
      apply ih
      rw [List.length_drop]
      omega
    rw [wordsOfBytes, List.flatMap_cons, UInt32.toNat_ofNat_of_lt' small, word, back,
      List.take_append_drop]

theorem ofBytesLE_bytesLE {n : Nat} (x : Wide n) : ofBytesLE x.bytesLE = x := by
  have words : wordsOfBytes n (x.words.flatMap fun w => Bytes.ofNat 4 w.toNat) = x.words := by
    have back := wordsOfBytes_flatMap x.words
    rw [x.length_words] at back
    exact back
  cases x
  simp only [ofBytesLE, bytesLE, Wide.mk.injEq]
  exact words

theorem bytesLE_ofBytesLE {n : Nat} {bs : Bytes} (long : bs.length = 4 * n) :
    (ofBytesLE bs : Wide n).bytesLE = bs := flatMap_wordsOfBytes long

end Wide

end BlockRules
