import Mathlib
import BlockRules.Target
import BlockRules.Wide.Lemmas

/-!
# The values of compact targets

A compact form is determined by its size, its mantissa and its sign (`Target.eq_of_parts`), and
stands for the mantissa, scaled by the size (`Target.magnitude_eq`). Encoding
(`Target.ofInt?_eq_ok_iff`) keeps the leading bytes of a number and drops the rest, so it never
raises a number that is positive (`Target.toInt_le_of_ofInt?`).

The encoder does this in words of 32 bits. They hold what they are to hold for numbers of up to
`2 ^ 32 + 16` bits (`Target.FitsWords`), and there the words are the fields that the number calls
for (`Target.fields?_of_fits`).

What proof of work makes of a target is said in terms of its value: a hash meets the targets
between zero and `2 ^ 256` that are not below it (`Target.isMetBy_iff`), and a harder target
proves at least as much work (`Target.blockProof_antitone`).
-/

namespace BlockRules

/-! ## Shifts by whole bytes -/

theorem shiftRight_bytes {a b : Nat} (le : a ≤ b) (m : Nat) :
    m >>> (8 * (b - a)) = m * 256 ^ a / 256 ^ b := by
  have split : 256 ^ b = 256 ^ (b - a) * 256 ^ a := by rw [← Nat.pow_add, Nat.sub_add_cancel le]
  rw [Nat.shiftRight_eq_div_pow, Nat.pow_mul, split,
    Nat.mul_div_mul_right _ _ (Nat.pow_pos (by decide))]

theorem shiftLeft_bytes {a b : Nat} (le : a ≤ b) (m : Nat) :
    m <<< (8 * (b - a)) = m * 256 ^ b / 256 ^ a := by
  have split : 256 ^ b = 256 ^ (b - a) * 256 ^ a := by rw [← Nat.pow_add, Nat.sub_add_cancel le]
  rw [Nat.shiftLeft_eq, Nat.pow_mul, split, ← Nat.mul_assoc,
    Nat.mul_div_cancel _ (Nat.pow_pos (by decide))]

namespace Target

/-! ## Decoding -/

/-- The number that a mantissa stands for next to a size. -/
def scaled (mantissa size : Nat) : Nat := mantissa * 256 ^ size / 256 ^ 3

theorem magnitude_eq (t : Target) : t.magnitude = scaled t.mantissa t.exponent := by
  rw [magnitude]
  split
  next small => exact shiftRight_bytes small _
  next large => exact shiftLeft_bytes (Nat.le_of_not_le large) _

/-! ## Encoding -/

/-- The mantissa that a number has next to a size. -/
def leading (m size : Nat) : Nat := m * 256 ^ 3 / 256 ^ size

/-- Next to the number of its bytes, a number has a mantissa of three bytes. -/
theorem leading_byteLength_lt (m : Nat) : leading m (byteLength m) < 2 ^ 24 := by
  have fits : m < 256 ^ byteLength m := byteLength_le_iff.1 le_rfl
  rw [leading, Nat.div_lt_iff_lt_mul (Nat.pow_pos (by decide)), Nat.mul_comm]
  exact Nat.mul_lt_mul_of_pos_left fits (by decide)

/-- One byte more of room leaves one byte less of the number. -/
theorem leading_succ (m size : Nat) : leading m (size + 1) = leading m size / 256 := by
  rw [leading, leading, Nat.div_div_eq_div_mul, ← Nat.pow_succ]

/-- The size and the mantissa that a number calls for: its leading bytes, one byte fewer where they
reach the sign bit. -/
def fields (m : Nat) : Nat × Nat :=
  if 2 ^ 23 ≤ leading m (byteLength m) then (byteLength m + 1, leading m (byteLength m + 1))
  else (byteLength m, leading m (byteLength m))

/-- The fields, with a byte more of room exactly when the sign bit would be set. -/
theorem fields_cases (m : Nat) :
    (2 ^ 23 ≤ leading m (byteLength m) ∧
      fields m = (byteLength m + 1, leading m (byteLength m + 1))) ∨
    leading m (byteLength m) < 2 ^ 23 ∧ fields m = (byteLength m, leading m (byteLength m)) := by
  rw [fields]
  split
  next signed => exact .inl ⟨signed, rfl⟩
  next free => exact .inr ⟨Nat.lt_of_not_le free, rfl⟩

/-- The mantissa among the fields leaves the sign bit free. -/
theorem fields_eq (m : Nat) :
    ∃ size, fields m = (size, leading m size) ∧ leading m size < 2 ^ 23 := by
  have below := leading_byteLength_lt m
  rcases fields_cases m with ⟨-, fields⟩ | ⟨free, fields⟩
  · refine ⟨byteLength m + 1, fields, ?_⟩
    rw [leading_succ]
    omega
  · exact ⟨byteLength m, fields, free⟩

/-- Cutting off low bytes does not make a number larger. -/
theorem scaled_leading_le (m size : Nat) : scaled (leading m size) size ≤ m := by
  have cut : leading m size * 256 ^ size ≤ m * 256 ^ 3 := Nat.div_mul_le_self _ _
  exact (Nat.div_le_div_right cut).trans_eq (Nat.mul_div_cancel _ (by decide))

/-- What the compact form keeps of a number. -/
def kept (m : Nat) : Nat := scaled (fields m).2 (fields m).1

theorem kept_le (m : Nat) : kept m ≤ m := by
  obtain ⟨size, fields, -⟩ := fields_eq m
  rw [kept, fields]
  exact scaled_leading_le m size

/-! ## Encoding in words -/

section Words

variable {m size : Nat} {w : UInt32} {v : Int}

/-- The number of bytes is a word, and so is the place of the leading ones. -/
def FitsWords (v : Int) : Prop := bitLength v.natAbs ≤ 2 ^ 32 + 16

theorem FitsWords.of_lt {k : Nat} (small : v.natAbs < 2 ^ k) (short : k ≤ 2 ^ 32 + 16) :
    FitsWords v :=
  (bitLength_le_iff.2 small).trans short

theorem mantissa_lt (t : Target) : t.mantissa < 2 ^ 23 := Nat.mod_lt _ (by decide)

theorem exponent_le (t : Target) : t.exponent ≤ 255 := by
  have := t.compact.toNat_lt
  rw [exponent]
  omega

theorem natAbs_toInt (t : Target) : t.toInt.natAbs = t.magnitude := by
  rw [toInt]
  split <;> omega

/-- The magnitude is bounded by the mantissa's 23 bits and the exponent's bytes. -/
theorem natAbs_toInt_lt (t : Target) : t.toInt.natAbs < 2 ^ (23 + 8 * t.exponent) := by
  have power : 2 ^ (23 + 8 * t.exponent) = 2 ^ 23 * 256 ^ t.exponent := by
    rw [Nat.pow_add, Nat.pow_mul]
  rw [natAbs_toInt, magnitude_eq, scaled, power]
  exact (Nat.div_le_self _ _).trans_lt
    (Nat.mul_lt_mul_of_pos_right t.mantissa_lt (Nat.pow_pos (by decide)))

/-- The values of forms are small enough. -/
theorem fitsWords_toInt (t : Target) : FitsWords t.toInt := by
  have byte := t.exponent_le
  exact FitsWords.of_lt t.natAbs_toInt_lt (by omega)

/-- So are their products with a word, divided by anything. -/
theorem fitsWords_mul_tdiv (t : Target) {factor : Int} (word : factor.natAbs < 2 ^ 64)
    (divisor : Int) : FitsWords ((t.toInt * factor).tdiv divisor) := by
  have byte := t.exponent_le
  have product : (t.toInt * factor).natAbs < 2 ^ (23 + 8 * t.exponent + 64) := by
    rw [Int.natAbs_mul, Nat.pow_add]
    exact Nat.mul_lt_mul'' t.natAbs_toInt_lt word
  refine FitsWords.of_lt (lt_of_le_of_lt ?_ product) (by omega)
  rw [Int.natAbs_tdiv]
  exact Nat.div_le_self _ _

/-- The bound on the number, said of its size in bytes. -/
theorem fitsWords_iff : FitsWords v ↔ byteLength v.natAbs ≤ 2 ^ 29 + 2 := by
  rw [FitsWords, byteLength]
  omega

theorem toNat_ofNat_size (word : size < 2 ^ 32) : (UInt32.ofNat size).toNat = size :=
  UInt32.toNat_ofNat_of_lt' word

/-- The place of the leading bytes is worked out for a size of up to `2 ^ 29 + 2`. -/
theorem leading?_eq (m : Nat) (size : UInt32) : leading? m size =
    if size.toNat ≤ 2 ^ 29 + 2 then
      .ok (UInt32.ofNat (if size.toNat ≤ 3 then m <<< (8 * (3 - size.toNat))
        else m >>> (8 * (size.toNat - 3))))
    else .error .wordOverflow := by
  have le : size ≤ 3 ↔ size.toNat ≤ 3 := UInt32.le_iff_toNat_le
  rw [leading?]
  by_cases small : size.toNat ≤ 3
  · rw [if_pos (le.2 small), if_pos small, if_pos (by omega)]
  · rw [if_neg (mt le.1 small), if_neg small, unsigned32]
    by_cases placed : size.toNat ≤ 2 ^ 29 + 2
    · rw [if_pos placed, if_pos (by omega)]
      rfl
    · rw [if_neg placed, if_neg (by omega)]
      rfl

/-- The mask finds the sign bit of a word. -/
theorem and_signBit_iff_testBit : w &&& 0x00800000 ≠ 0 ↔ w.toNat.testBit 23 = true := by
  have masked : (w &&& 0x00800000).toNat = (w.toNat.testBit 23).toNat * 2 ^ 23 := by
    rw [UInt32.toNat_and]
    exact Nat.and_two_pow w.toNat 23
  rw [ne_eq, ← UInt32.toNat_inj, masked]
  cases w.toNat.testBit 23 <;> decide

/-- In a word of three bytes it is the top bit. -/
theorem and_signBit_iff (below : w.toNat < 2 ^ 24) : w &&& 0x00800000 ≠ 0 ↔
    2 ^ 23 ≤ w.toNat := by
  rw [and_signBit_iff_testBit, Nat.testBit_eq_decide_div_mod_eq, decide_eq_true_iff]
  omega

/-- A size above the three bytes of a mantissa. -/
theorem toNat_or_shiftLeft (below : w.toNat < 2 ^ 24) (byte : size < 2 ^ 8) :
    (w ||| (UInt32.ofNat size <<< 24)).toNat = size * 0x1000000 + w.toNat := by
  have shifted : (UInt32.ofNat size <<< 24).toNat = size <<< 24 := by
    rw [UInt32.toNat_shiftLeft, toNat_ofNat_size (byte.trans (by decide))]
    exact Nat.mod_eq_of_lt
      (by rw [Nat.shiftLeft_eq]; exact Nat.mul_lt_mul_of_pos_right byte (by decide))
  rw [UInt32.toNat_or, shifted, Nat.or_comm, ← Nat.shiftLeft_add_eq_or_of_lt below,
    Nat.shiftLeft_eq]

/-- The words hold the fields that the number calls for. -/
theorem fields?_of_fits (fits : byteLength m ≤ 2 ^ 29 + 2) :
    fields? m = .ok (UInt32.ofNat (fields m).1, UInt32.ofNat (fields m).2) := by
  have below := leading_byteLength_lt m
  have size : (UInt32.ofNat (byteLength m)).toNat = byteLength m := toNat_ofNat_size (by omega)
  have bytes : (if byteLength m ≤ 3 then m <<< (8 * (3 - byteLength m))
      else m >>> (8 * (byteLength m - 3))) = leading m (byteLength m) := by
    split
    next small => exact shiftLeft_bytes small m
    next large => exact shiftRight_bytes (Nat.le_of_not_le large) m
  have word : (UInt32.ofNat (leading m (byteLength m))).toNat = leading m (byteLength m) :=
    toNat_ofNat_size (below.trans (by decide))
  have signed := and_signBit_iff (word.trans_lt below)
  rw [word] at signed
  rw [fields?, leading?_eq, size, if_pos fits, bytes]
  dsimp only
  rcases fields_cases m with ⟨reaches, fields⟩ | ⟨free, fields⟩
  · have shorter : UInt32.ofNat (leading m (byteLength m)) >>> 8 =
        UInt32.ofNat (leading m (byteLength m + 1)) := by
      rw [← UInt32.toNat_inj, UInt32.toNat_shiftRight, word, leading_succ,
        toNat_ofNat_size (by omega)]
      exact Nat.shiftRight_eq_div_pow _ 8
    rw [if_pos (signed.2 reaches), fields, shorter, UInt32.ofNat_add]
    rfl
  · rw [if_neg (mt signed.1 (Nat.not_le.2 free)), fields]

end Words

/-- A form is determined by its size, its sign and its mantissa. -/
theorem eq_of_parts {s t : Target} (exponent : s.exponent = t.exponent)
    (mantissa : s.mantissa = t.mantissa) (sign : s.signBit = t.signBit) : s = t := by
  obtain ⟨s⟩ := s
  obtain ⟨t⟩ := t
  rw [mk.injEq, ← UInt32.toNat_inj]
  simp only [Target.exponent, Target.mantissa, signBit, decide_eq_decide] at exponent mantissa sign
  omega

/-- The size, the mantissa and the sign of a form that is put together from them. -/
theorem parts_mk {size mantissa : Nat} {sign : Bool} (byte : size ≤ 255)
    (free : mantissa < 2 ^ 23) :
    let t : Target :=
      ⟨UInt32.ofNat (size * 0x1000000 + (if sign then 0x800000 else 0) + mantissa)⟩
    t.exponent = size ∧ t.mantissa = mantissa ∧ t.signBit = sign := by
  intro t
  have word : t.compact.toNat = size * 0x1000000 + (if sign then 0x800000 else 0) + mantissa := by
    rw [UInt32.toNat_ofNat', Nat.mod_eq_of_lt (by split <;> omega)]
  rw [exponent, Target.mantissa, signBit, word]
  cases sign <;> simp <;> omega

/-- A word of a size, a mantissa and a sign that is put in where the mantissa is not zero. -/
theorem compact_mk {size mantissa : Nat} (byte : size ≤ 255) (free : mantissa < 2 ^ 23)
    (negative : Prop) [Decidable negative] :
    let compact := UInt32.ofNat mantissa ||| (UInt32.ofNat size <<< 24)
    (if negative ∧ compact &&& 0x007fffff ≠ 0 then Target.mk (compact ||| 0x00800000)
      else ⟨compact⟩) =
    ⟨UInt32.ofNat (size * 0x1000000 +
      (if decide (negative ∧ mantissa ≠ 0) then 0x800000 else 0) + mantissa)⟩ := by
  intro compact
  have small : (UInt32.ofNat mantissa).toNat = mantissa := toNat_ofNat_size (by omega)
  have word : compact.toNat = size * 0x1000000 + mantissa := by
    rw [toNat_or_shiftLeft (by omega) (by omega), small]
  -- the mask takes the size away again
  have masked : compact &&& 0x007fffff ≠ 0 ↔ mantissa ≠ 0 := by
    have low : (compact &&& 0x007fffff).toNat = compact.toNat % 2 ^ 23 := by
      rw [UInt32.toNat_and]
      exact Nat.and_two_pow_sub_one_eq_mod compact.toNat 23
    rw [ne_eq, ← UInt32.toNat_inj, low, word]
    change ¬_ = 0 ↔ _
    omega
  -- the sign is put between the mantissa, which leaves its bit free, and the size
  have signed : (compact ||| 0x00800000).toNat = size * 0x1000000 + 0x800000 + mantissa := by
    have high : (UInt32.ofNat mantissa ||| 0x00800000).toNat = 0x800000 + mantissa := by
      rw [UInt32.toNat_or, small, Nat.or_comm]
      exact (Nat.two_pow_add_eq_or_of_lt free 1).symm
    rw [UInt32.or_assoc, UInt32.or_comm (UInt32.ofNat size <<< 24), ← UInt32.or_assoc,
      toNat_or_shiftLeft (by omega) (by omega), high, Nat.add_assoc]
  by_cases sign : negative ∧ mantissa ≠ 0
  · rw [if_pos (And.imp_right masked.2 sign), decide_eq_true sign, if_pos rfl, mk.injEq,
      ← UInt32.toNat_inj, signed, toNat_ofNat_size (by omega)]
  · rw [if_neg (mt (And.imp_right masked.1) sign), decide_eq_false sign, mk.injEq,
      ← UInt32.toNat_inj, word, if_neg Bool.false_ne_true, Nat.add_zero,
      toNat_ofNat_size (by omega)]

/-- What the encoder makes of a number that fits the words. -/
theorem ofInt?_of_fits {v : Int} (fits : FitsWords v) : ofInt? v =
    if 255 < (fields v.natAbs).1 then .error (.format (.targetSize (fields v.natAbs).1))
    else .ok ⟨UInt32.ofNat ((fields v.natAbs).1 * 0x1000000 +
      (if decide (v < 0 ∧ (fields v.natAbs).2 ≠ 0) then 0x800000
        else 0) + (fields v.natAbs).2)⟩ := by
  have bytes := fitsWords_iff.1 fits
  obtain ⟨size, fields, free⟩ := fields_eq v.natAbs
  have word : size < 2 ^ 32 := by
    have most : size ≤ byteLength v.natAbs + 1 := by
      rcases fields_cases v.natAbs with ⟨-, same⟩ | ⟨-, same⟩ <;>
        have := congrArg Prod.fst (fields.symm.trans same) <;> dsimp only at this <;> omega
    omega
  have large : 0xff < UInt32.ofNat size ↔ 255 < size := by
    rw [UInt32.lt_iff_toNat_lt, toNat_ofNat_size word]
    exact Iff.rfl
  rw [ofInt?, fields?_of_fits bytes, fields]
  dsimp only
  by_cases wide : 255 < size
  · rw [if_pos (large.2 wide), if_pos wide, toNat_ofNat_size word]
  · rw [if_neg (mt large.1 wide), if_neg wide, ← compact_mk (Nat.le_of_not_lt wide) free (v < 0)]
    exact (apply_ite Except.ok _ _ _).symm

theorem ofInt?_ne_fault {v : Int} {cause : Fault} (fits : FitsWords v) :
    ofInt? v ≠ .error (.fault cause) := by
  rw [ofInt?_of_fits fits]
  split <;> nofun

/-- The encoder writes the size and the mantissa of a number whose size is a byte, with the sign bit
if there is a sign and something to give it to. -/
theorem ofInt?_eq_ok_iff {v : Int} {t : Target} (fits : FitsWords v) :
    ofInt? v = .ok t ↔ (fields v.natAbs).1 ≤ 255 ∧ t.exponent = (fields v.natAbs).1 ∧
      t.mantissa = (fields v.natAbs).2 ∧
      t.signBit = decide (v < 0 ∧ (fields v.natAbs).2 ≠ 0) := by
  obtain ⟨size, fields, free⟩ := fields_eq v.natAbs
  simp only [ofInt?_of_fits fits, fields]
  by_cases large : 255 < size
  · rw [if_pos large]
    exact iff_of_false nofun fun parts => absurd parts.1 (Nat.not_le.2 large)
  · have byte : size ≤ 255 := Nat.le_of_not_lt large
    have written := @parts_mk size (leading v.natAbs size)
      (decide (v < 0 ∧ leading v.natAbs size ≠ 0)) byte free
    obtain ⟨exponent, mantissa, sign⟩ := written
    rw [if_neg large]
    constructor
    · intro given
      obtain rfl := Except.ok.inj given
      exact ⟨byte, exponent, mantissa, sign⟩
    · rintro ⟨-, exponent', mantissa', sign'⟩
      exact congrArg Except.ok (eq_of_parts (exponent.trans exponent'.symm)
        (mantissa.trans mantissa'.symm) (sign.trans sign'.symm))

/-- The compact form of a number stands for what it keeps of it, with the same sign. -/
theorem toInt_of_ofInt? {v : Int} {t : Target} (fits : FitsWords v) (given : ofInt? v = .ok t) :
    t.toInt = if v < 0 then -(kept v.natAbs : Int) else kept v.natAbs := by
  obtain ⟨-, exponent, mantissa, sign⟩ := (ofInt?_eq_ok_iff fits).1 given
  rw [toInt, magnitude_eq, exponent, mantissa, sign, kept]
  by_cases negative : v < 0
  · by_cases nothing : (fields v.natAbs).2 = 0
    · -- a negative number of which nothing is kept has no sign
      simp [nothing, scaled]
    · simp [negative, nothing]
  · simp [negative]

/-- The compact form does not raise a number, except one below zero, of which it may keep
nothing. -/
theorem toInt_le_of_ofInt? {v : Int} {t : Target} (fits : FitsWords v) (given : ofInt? v = .ok t) :
    t.toInt ≤ max v 0 := by
  have cut := kept_le v.natAbs
  rw [toInt_of_ofInt? fits given]
  split <;> omega

/-! ## Proof of work -/

/-- A target is in range exactly if it is positive and has at most 256 bits. -/
theorem inRange_iff {t : Target} : t.inRange = true ↔ 0 < t.toInt ∧ t.toInt < 2 ^ 256 := by
  rw [inRange, Bool.and_eq_true, decide_eq_true_iff, decide_eq_true_iff, bitLength_le_iff]
  omega

/-- A hash meets a target that lies between zero and `2 ^ 256` and is not below the hash. -/
theorem isMetBy_iff {t : Target} {hash : UInt256} :
    t.isMetBy hash = true ↔
      0 < t.toInt ∧ t.toInt < 2 ^ 256 ∧ (hash.toNat : Int) ≤ t.toInt := by
  rw [isMetBy, Bool.and_eq_true, inRange_iff, and_assoc]
  refine and_congr_right fun positive => and_congr_right fun bounded => ?_
  have small : t.toInt.natAbs < 256 ^ (4 * 8) := by omega
  have held : toUInt256? t = .ok (Wide.ofNat t.toInt.natAbs) := by
    rw [toUInt256?, if_neg (by omega), Wide.ofNat?_eq_ok_iff.2 ⟨small, rfl⟩]
  have value := Wide.toNat_of_ofNat? (Wide.ofNat?_eq_ok_iff.2 ⟨small, rfl⟩)
  rw [held]
  dsimp only
  rw [Wide.le_iff, value]
  omega

/-- In range the work is the reciprocal of the number of accepted hashes. -/
theorem blockProof_of_inRange {t : Target} (inRange : t.inRange = true) :
    t.blockProof = 2 ^ 256 / (t.toInt.natAbs + 1) := by
  rw [blockProof, if_pos inRange]
  rfl

/-- A harder target proves at least as much work. -/
theorem blockProof_antitone {s t : Target} (positive : 0 < s.toInt) (harder : s.toInt ≤ t.toInt) :
    t.blockProof ≤ s.blockProof := by
  by_cases range : t.inRange = true
  · have bounds := inRange_iff.1 range
    have range' : s.inRange = true := inRange_iff.2 ⟨positive, by omega⟩
    rw [blockProof_of_inRange range, blockProof_of_inRange range']
    exact Nat.div_le_div_left (by omega) (Nat.succ_pos _)
  · rw [blockProof, if_neg range]
    exact Nat.zero_le _

end Target

end BlockRules
