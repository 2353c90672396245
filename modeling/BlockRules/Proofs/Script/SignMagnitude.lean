import Mathlib
import BlockRules.Bytes.Lemmas
import BlockRules.Script.Number
import BlockRules.Wide.Lemmas

/-!
# Numbers in sign and magnitude

An item that is read as a number has its sign in the top bit of its last byte, and the lower seven
bits of that byte are the highest digit. Many items stand for one number, since zeros may be put
below the sign, and zero itself has a sign. One of the items is the shortest.

* **value** — the last byte and the bytes before it give a number by one formula
  (`ScriptNum.signed`, `ScriptNum.value_append`);
* **the shortest form** — writing takes the first place whose digit leaves room for the sign
  (`ScriptNum.signPlace`), and puts the highest digit and the sign there (`ScriptNum.encode_eq`). So
  the number of bytes tells the size of the number (`ScriptNum.length_encode_le_iff`);
* **one item for each number** — what is written is minimal and stands for the number it was
  written for (`ScriptNum.isMinimal_encode`, `ScriptNum.value_encode`), and what is minimal is what
  is written for its value (`ScriptNum.encode_value`);
* **truth** — an item is true unless its value is zero, with either sign
  (`ScriptNum.truthy_eq_false_iff`).

`ScriptNum.sign_magnitude_code` says the same of reading under a limit.
-/

namespace BlockRules

namespace ScriptNum

/-! ## The value -/

/-- The number of a last byte and the bytes before it: the lower seven bits of the last byte are the
highest digit, and its top bit is the sign. -/
def signed (init : Bytes) (last : UInt8) : Int :=
  let magnitude : Nat := Bytes.toNat init + 256 ^ init.length * (last.toNat % 128)
  if last.toNat < 128 then magnitude else -magnitude

/-- The value of an item: its last byte carries the sign, the others the magnitude. -/
theorem value_append (init : Bytes) (last : UInt8) : value (init ++ [last]) = signed init last := by
  have sign : 128 <<< (8 * ((init ++ [last]).length - 1)) = 256 ^ init.length * 128 := by
    rw [List.length_append, List.length_singleton, Nat.add_sub_cancel, Nat.shiftLeft_eq,
      Nat.pow_mul, Nat.mul_comm]
  have below := Bytes.toNat_lt init
  have number :
      Bytes.toNat (init ++ [last]) = Bytes.toNat init + 256 ^ init.length * last.toNat := by
    rw [Bytes.toNat_append, Bytes.toNat_cons, Bytes.toNat_nil, Nat.mul_zero, Nat.add_zero]
  rw [value, sign, number, signed]
  by_cases positive : last.toNat < 128
  · have room : 256 ^ init.length * (last.toNat + 1) ≤ 256 ^ init.length * 128 :=
      Nat.mul_le_mul_left _ positive
    rw [Nat.mul_succ] at room
    rw [if_pos positive, if_pos (by omega), Nat.mod_eq_of_lt positive]
  · have digit : last.toNat = 128 + last.toNat % 128 := by
      have byte := last.toNat_lt
      omega
    have sum :
        256 ^ init.length * last.toNat = 256 ^ init.length * 128 + 256 ^ init.length *
          (last.toNat % 128) := by
      rw [← Nat.mul_add, ← digit]
    rw [if_neg positive, if_neg (by omega), sum]
    congr 2
    omega

theorem natAbs_signed (init : Bytes) (last : UInt8) :
    (signed init last).natAbs = Bytes.toNat init + 256 ^ init.length * (last.toNat % 128) := by
  rw [signed]
  split
  next => exact Int.natAbs_natCast _
  next => rw [Int.natAbs_neg, Int.natAbs_natCast]

theorem signed_lt_zero_iff {init : Bytes} {last : UInt8} (nonzero : signed init last ≠ 0) :
    signed init last < 0 ↔ 128 ≤ last.toNat := by
  rw [signed] at nonzero ⊢
  split
  next positive => omega
  next negative =>
    rw [if_neg negative] at nonzero
    omega

/-- The last byte is needed for a digit, or for the sign because the byte before it has no room. -/
theorem isMinimal_append (init : Bytes) (last : UInt8) :
    isMinimal (init ++ [last]) = true ↔
      last.toNat % 128 ≠ 0 ∨ ∃ before b, init = before ++ [b] ∧ 128 ≤ b.toNat := by
  have digit : ∀ b : UInt8, (b &&& 0x7f != 0) = true ↔ b.toNat % 128 ≠ 0 := by decide +kernel
  rw [isMinimal, List.reverse_append, List.reverse_singleton, List.singleton_append]
  dsimp only
  rw [Bool.or_eq_true, digit]
  refine or_congr_right ?_
  rcases List.eq_nil_or_concat' init with rfl | ⟨before, b, rfl⟩
  · simp
  · rw [List.reverse_append, List.reverse_singleton, List.singleton_append]
    dsimp only
    rw [bne_iff_ne, Bytes.and_topBit_ne_zero_iff]
    constructor
    · intro full
      exact ⟨before, b, rfl, full⟩
    · rintro ⟨_, _, same, full⟩
      obtain ⟨-, same⟩ := List.append_inj' same rfl
      obtain rfl := List.singleton_inj.1 same
      exact full

/-! ## The shortest form -/

/-- The first place at which the magnitude `n` leaves room for the sign. -/
def signPlace (n : Nat) : Nat := bitLength n / 8

/-- The sign finds room behind `k` bytes exactly if the number leaves their sign bit free. -/
theorem signPlace_le_iff {n k : Nat} : signPlace n ≤ k ↔ n < 128 * 256 ^ k := by
  have bits : 128 * 256 ^ k = 2 ^ (8 * k + 7) := by
    rw [Nat.pow_add, Nat.pow_mul, Nat.mul_comm]
  rw [bits, ← bitLength_le_iff, signPlace]
  omega

theorem signPlace_eq {n k : Nat} (above : ∀ j < k, 128 * 256 ^ j ≤ n) (below : n < 128 * 256 ^ k) :
    signPlace n = k := by
  refine le_antisymm (signPlace_le_iff.2 below) (Nat.le_of_not_lt fun early => ?_)
  exact absurd (signPlace_le_iff.1 le_rfl) (Nat.not_lt.2 (above _ early))

/-- The digit at that place. -/
def signDigit (n : Nat) : Nat := n / 256 ^ signPlace n

theorem signDigit_lt (n : Nat) : signDigit n < 128 :=
  (Nat.div_lt_iff_lt_mul (by positivity)).2 (signPlace_le_iff.1 le_rfl)

/-- The byte at that place: the digit and the sign. -/
def signByte (v : Int) : Nat := signDigit v.natAbs + if v < 0 then 128 else 0

theorem signByte_mod (v : Int) : signByte v % 128 = signDigit v.natAbs := by
  have digit := signDigit_lt v.natAbs
  rw [signByte]
  split <;> omega

theorem signByte_lt_iff {v : Int} : signByte v < 128 ↔ 0 ≤ v := by
  have digit := signDigit_lt v.natAbs
  rw [signByte]
  split <;> omega

theorem toNat_signByte (v : Int) : (UInt8.ofNat (signByte v)).toNat = signByte v := by
  have digit := signDigit_lt v.natAbs
  refine UInt8.toNat_ofNat_of_lt' ?_
  rw [signByte, UInt8.size]
  split <;> omega

/-- A number other than zero is written up to the place of its sign. -/
theorem encode_eq {v : Int} (nonzero : v ≠ 0) :
    encode v = Bytes.ofNat (signPlace v.natAbs) v.natAbs ++ [UInt8.ofNat (signByte v)] := by
  have positive : v.natAbs ≠ 0 := Int.natAbs_ne_zero.2 nonzero
  obtain ⟨k, bytes⟩ : ∃ k, byteLength v.natAbs = k + 1 := by
    refine Nat.exists_eq_succ_of_ne_zero fun none => ?_
    have small : v.natAbs < 256 ^ 0 := byteLength_le_iff.1 none.le
    omega
  have above : v.natAbs < 256 ^ (k + 1) := byteLength_le_iff.1 bytes.le
  have digit : v.natAbs / 256 ^ k < 256 := by
    rw [Nat.div_lt_iff_lt_mul (by positivity), ← Nat.pow_succ']
    exact above
  have byte : (UInt8.ofNat (v.natAbs / 256 ^ k)).toNat = v.natAbs / 256 ^ k :=
    UInt8.toNat_ofNat_of_lt' digit
  have written := Bytes.ofNat_succ_eq_append k v.natAbs
  simp only [encode]
  rw [bytes, written, List.getLast?_concat]
  dsimp only
  have least : byteLength v.natAbs ≤ signPlace v.natAbs + 1 := by
    rw [byteLength, signPlace]
    omega
  by_cases full : 128 ≤ v.natAbs / 256 ^ k
  · -- the highest digit leaves no room, so the sign gets a byte of its own
    have place : signPlace v.natAbs = k + 1 := by
      refine le_antisymm (signPlace_le_iff.2 (by omega)) (Nat.lt_of_not_le fun early => ?_)
      have room := (Nat.div_lt_iff_lt_mul (by positivity)).2 (signPlace_le_iff.1 early)
      omega
    have sign : signByte v = if v < 0 then 128 else 0 := by
      rw [signByte, signDigit, place, Nat.div_eq_of_lt above, Nat.zero_add]
    rw [if_pos (bne_iff_ne.2 (Bytes.and_topBit_ne_zero_iff.2 (byte.symm ▸ full))), ← written,
      place, sign]
    split <;> rfl
  · have place : signPlace v.natAbs = k := by
      refine le_antisymm (signPlace_le_iff.2 ?_) (by omega)
      exact (Nat.div_lt_iff_lt_mul (by positivity)).1 (Nat.lt_of_not_le full)
    have sign : signByte v = v.natAbs / 256 ^ k + if v < 0 then 128 else 0 := by
      rw [signByte, signDigit, place]
    rw [if_neg (fun bit => full (byte ▸ Bytes.and_topBit_ne_zero_iff.1 (bne_iff_ne.1 bit))),
      place, sign]
    split
    next negative =>
      have withSign :
          ∀ b : UInt8, b.toNat < 128 → b ||| 0x80 = UInt8.ofNat (b.toNat + 128) := by
        decide +kernel
      rw [List.dropLast_concat, withSign _ (byte.symm ▸ Nat.lt_of_not_le full), byte]
    next => rfl

/-- The number of bytes of a number tells its size. -/
theorem length_encode_le_iff {v : Int} {k : Nat} :
    (encode v).length ≤ k + 1 ↔ v.natAbs < 128 * 256 ^ k := by
  by_cases zero : v = 0
  · subst zero
    exact iff_of_true (Nat.zero_le _) (by positivity)
  · rw [encode_eq zero, List.length_append, Bytes.length_ofNat, List.length_singleton,
      Nat.add_le_add_iff_right, signPlace_le_iff]

/-! ## One item for each number -/

/-- Low bytes and sign byte give the number back. -/
theorem signed_signByte (v : Int) :
    signed (Bytes.ofNat (signPlace v.natAbs) v.natAbs) (UInt8.ofNat (signByte v)) = v := by
  have magnitude : Bytes.toNat (Bytes.ofNat (signPlace v.natAbs) v.natAbs) +
      256 ^ (Bytes.ofNat (signPlace v.natAbs) v.natAbs).length * (signByte v % 128) = v.natAbs := by
    rw [Bytes.toNat_ofNat, Bytes.length_ofNat, signByte_mod, signDigit, Nat.mod_add_div]
  rw [signed, toNat_signByte, magnitude]
  simp only [signByte_lt_iff]
  split <;> omega

/-- A number is read back. -/
theorem value_encode (v : Int) : value (encode v) = v := by
  by_cases zero : v = 0
  · subst zero
    rfl
  · rw [encode_eq zero, value_append, signed_signByte]

/-- A number is written without a byte that is not needed. -/
theorem isMinimal_encode (v : Int) : isMinimal (encode v) = true := by
  by_cases zero : v = 0
  · subst zero
    rfl
  rw [encode_eq zero, isMinimal_append, toNat_signByte, signByte_mod]
  by_cases digit : signDigit v.natAbs = 0
  · -- nothing but the sign is left for the last place, so the digit before it has no room
    refine .inr ?_
    have above : v.natAbs < 256 ^ signPlace v.natAbs :=
      (Nat.div_eq_zero_iff_lt (by positivity)).1 digit
    obtain ⟨k, place⟩ : ∃ k, signPlace v.natAbs = k + 1 := by
      refine Nat.exists_eq_succ_of_ne_zero fun none => ?_
      rw [none] at above
      omega
    rw [place] at above ⊢
    have before : v.natAbs / 256 ^ k < 256 := by
      rw [Nat.div_lt_iff_lt_mul (by positivity), ← Nat.pow_succ']
      exact above
    refine ⟨_, _, Bytes.ofNat_succ_eq_append k v.natAbs, ?_⟩
    rw [UInt8.toNat_ofNat_of_lt' before, Nat.le_div_iff_mul_le (by positivity)]
    refine Nat.le_of_not_lt fun room => ?_
    have early := signPlace_le_iff.2 room
    omega
  · exact .inl digit

/-- The magnitude of a minimal item reaches up to its last byte. -/
theorem le_natAbs_signed {init : Bytes} {last : UInt8}
    (minimal : isMinimal (init ++ [last]) = true) :
    signed init last ≠ 0 ∧
    ∀ k < init.length, 128 * 256 ^ k ≤ (signed init last).natAbs := by
  rw [← Int.natAbs_ne_zero, natAbs_signed]
  rcases (isMinimal_append init last).1 minimal with filled | ⟨before, b, rfl, full⟩
  · have digit : 256 ^ init.length * 1 ≤ 256 ^ init.length * (last.toNat % 128) :=
      Nat.mul_le_mul_left _ (Nat.pos_of_ne_zero filled)
    have power : 0 < 256 ^ init.length := by positivity
    refine ⟨by omega, fun k lower => ?_⟩
    have next : 256 ^ (k + 1) ≤ 256 ^ init.length := Nat.pow_le_pow_right (by decide) lower
    rw [Nat.pow_succ] at next
    omega
  · have number :
        Bytes.toNat (before ++ [b]) = Bytes.toNat before + 256 ^ before.length * b.toNat := by
      rw [Bytes.toNat_append, Bytes.toNat_cons, Bytes.toNat_nil, Nat.mul_zero, Nat.add_zero]
    have digit : 256 ^ before.length * 128 ≤ 256 ^ before.length * b.toNat :=
      Nat.mul_le_mul_left _ full
    have power : 0 < 256 ^ before.length := by positivity
    refine ⟨by omega, fun k lower => ?_⟩
    rw [List.length_append, List.length_singleton] at lower
    have same : 256 ^ k ≤ 256 ^ before.length :=
      Nat.pow_le_pow_right (by decide) (Nat.le_of_lt_succ lower)
    omega

/-- A minimal item is what is written for its value. -/
theorem encode_value {bs : Bytes} (minimal : isMinimal bs = true) : encode (value bs) = bs := by
  rcases List.eq_nil_or_concat' bs with rfl | ⟨init, last, rfl⟩
  · rfl
  obtain ⟨nonzero, reaches⟩ := le_natAbs_signed minimal
  have below := Bytes.toNat_lt init
  have digit : last.toNat % 128 < 128 := Nat.mod_lt _ (by decide)
  have room : 256 ^ init.length * (last.toNat % 128 + 1) ≤ 256 ^ init.length * 128 :=
    Nat.mul_le_mul_left _ digit
  have place : signPlace (signed init last).natAbs = init.length := by
    refine signPlace_eq reaches ?_
    rw [natAbs_signed]
    rw [Nat.mul_succ] at room
    omega
  have low : Bytes.ofNat init.length (signed init last).natAbs = init := by
    rw [natAbs_signed, Bytes.ofNat_toNat_add]
  have high : signByte (signed init last) = last.toNat := by
    rw [signByte, signDigit, place, natAbs_signed, Nat.add_mul_div_left _ _ (by positivity),
      Nat.div_eq_of_lt below, Nat.zero_add]
    have sign := signed_lt_zero_iff nonzero
    have byte := last.toNat_lt
    split <;> omega
  rw [value_append, encode_eq nonzero, place, low, high, UInt8.ofNat_toNat]

/-! ## Truth -/

/-- Some byte is not zero, and it is not the sign alone. -/
theorem truthy_append (init : Bytes) (last : UInt8) :
    truthy (init ++ [last]) = (init.any (· != 0) || (last != 0 && last != 0x80)) := by
  induction init with
  | nil => rfl
  | cons b init ih =>
    have step : truthy (b :: (init ++ [last])) = (b != 0 || truthy (init ++ [last])) := by
      rcases init with _ | ⟨c, init⟩ <;> rfl
    rw [List.cons_append, step, ih, List.any_cons, Bool.or_assoc]

/-- An item is false exactly if it stands for zero, with either sign. -/
theorem truthy_eq_false_iff (bs : Bytes) : truthy bs = false ↔ value bs = 0 := by
  rcases List.eq_nil_or_concat' bs with rfl | ⟨init, last, rfl⟩
  · exact iff_of_true rfl rfl
  have sign : ∀ b : UInt8, (b != 0 && b != 0x80) = false ↔ b.toNat % 128 = 0 := by
    decide +kernel
  have zeros : init.any (· != 0) = false ↔ Bytes.toNat init = 0 := by
    rw [Bytes.toNat_eq_zero_iff]
    simp
  have power : 0 < 256 ^ init.length := by positivity
  rw [truthy_append, Bool.or_eq_false_iff, sign, zeros, value_append, ← Int.natAbs_eq_zero,
    natAbs_signed, Nat.add_eq_zero_iff, Nat.mul_eq_zero, or_iff_right power.ne']

/-! ## Reading -/

/-- What reading an item of at most eight bytes comes to, within the limit. -/
theorem decode_of_length_le {minimal : Bool} {maxSize : Nat} {bs : Bytes}
    (within : bs.length ≤ maxSize) (word : bs.length ≤ 8) :
    decode minimal maxSize bs =
      if minimal && !isMinimal bs then .error .nonMinimal else .ok (value bs) := by
  rw [decode, if_neg (Nat.not_lt.2 within), if_neg (Nat.not_lt.2 word)]

theorem value_of_decode {minimal : Bool} {maxSize : Nat} {bs : Bytes} {v : Int}
    (read : decode minimal maxSize bs = .ok v) : value bs = v := by
  rw [decode] at read
  split at read
  next => cases read
  next =>
  split at read
  next => cases read
  next =>
  split at read
  next => cases read
  next => exact Except.ok.inj read

/-- **Numbers on the stack.** An item stands for the number whose digits are its bytes, but for the
top bit of the last one, which is the sign.

* A number below `2 ^ 63` in magnitude is written in a minimal item, which is read back under every
  limit that it keeps. It takes at most four bytes exactly below `2 ^ 31` in magnitude, and at most
  five exactly below `2 ^ 39`.
* An item of at most eight bytes stands for a number. It passes as minimal if it is what is written
  for that number, and is refused otherwise.
* An item of any length is false exactly if it stands for zero. So truth agrees with what is read,
  whenever something is. -/
theorem sign_magnitude_code :
    (value [] = 0 ∧ ∀ init last, value (init ++ [last]) = signed init last) ∧
    (∀ v : Int, v.natAbs < 2 ^ 63 →
      isMinimal (encode v) = true ∧
      (∀ maxSize, (encode v).length ≤ maxSize → decode true maxSize (encode v) = .ok v) ∧
      ((encode v).length ≤ 4 ↔ v.natAbs ≤ 2 ^ 31 - 1) ∧
      ((encode v).length ≤ 5 ↔ v.natAbs ≤ 2 ^ 39 - 1)) ∧
    (∀ bs : Bytes, bs.length ≤ 8 → ∃ v, decode false 8 bs = .ok v ∧
      decode true 8 bs = if bs = encode v then .ok v else .error .nonMinimal) ∧
    ∀ bs : Bytes, (truthy bs = false ↔ value bs = 0) ∧
      ∀ minimal maxSize v, decode minimal maxSize bs = .ok v →
        (truthy bs = true ↔ v ≠ 0) := by
  refine ⟨⟨rfl, value_append⟩,
    fun v small => ⟨isMinimal_encode v, fun maxSize within => ?_, ?_, ?_⟩,
    fun bs short => ⟨value bs, ?_, ?_⟩,
    fun bs => ⟨truthy_eq_false_iff bs, fun minimal maxSize v read => ?_⟩⟩
  · have word : (encode v).length ≤ 8 := length_encode_le_iff.2 (small.trans_eq (by norm_num))
    rw [decode_of_length_le within word, isMinimal_encode, value_encode]
    rfl
  · rw [length_encode_le_iff]
    omega
  · rw [length_encode_le_iff]
    omega
  · exact decode_of_length_le short short
  · rw [decode_of_length_le short short]
    rcases minimal : isMinimal bs with _ | _
    · have other : bs ≠ encode (value bs) := fun same => by
        rw [same, isMinimal_encode] at minimal
        cases minimal
      rw [if_neg other]
      rfl
    · rw [if_pos (encode_value minimal).symm]
      rfl
  · rw [← value_of_decode read, ne_eq, ← truthy_eq_false_iff, Bool.not_eq_false]

/-- The least word of 32 bits has no room for its sign in four bytes, and zero with a sign is no
less false than without. -/
theorem least_word_takes_five_bytes :
    (-2147483648 : Int).natAbs < 2 ^ 63 ∧ isMinimal (encode (-2147483648)) = true ∧
      decode true 5 (encode (-2147483648)) = .ok (-2147483648) ∧
      ¬(encode (-2147483648)).length ≤ 4 ∧ ([0x00, 0x80] : Bytes).length ≤ 8 ∧
      decode false 8 [0x00, 0x80] = .ok 0 ∧ decode true 8 [0x00, 0x80] = .error .nonMinimal ∧
      truthy [0x00, 0x80] = false := by
  obtain ⟨-, numbers, items, truth⟩ := sign_magnitude_code
  obtain ⟨minimal, back, four, five⟩ := numbers (-2147483648) (by decide)
  obtain ⟨v, read, passed⟩ := items [0x00, 0x80] (by decide)
  have zero : decode false 8 [0x00, 0x80] = .ok 0 := by decide
  obtain rfl : 0 = v := Except.ok.inj (zero.symm.trans read)
  refine ⟨by decide, minimal, back 5 (five.2 (by decide)), mt four.1 (by decide),
    by decide, zero, ?_, (truth [0x00, 0x80]).1.2 (by decide)⟩
  rw [passed, if_neg (by decide)]

end ScriptNum

end BlockRules
