import Mathlib
import BlockRules.Target.Lemmas

/-!
# The compact form as a code

A compact form has room for three bytes of a number. Which numbers it holds, what becomes of the
others, and which of the many forms of one number the encoder chooses is the subject of this module.

* **the size** — `Normal m size`: next to this size the number has a mantissa whose value reaches
  into the upper two of its bytes and leaves the sign bit free. Of every number but zero there is
  exactly one such size, a larger number has no smaller one (`Normal.size_le`), and the encoder
  finds it (`fields_of_normal`, `exists_normal`);
* **what is kept** — the bytes that the mantissa reaches (`scaled_leading`). Less than one part in
  `2 ^ 15` is lost (`lost_lt_kept`), nothing of a number that was cut before (`fields_kept`), and
  the order stays (`kept_mono`);
* **the form** — the encoder writes the size, the mantissa and a sign, and a form is determined by
  these. So a form is the one the encoder chooses if its own size is normal and its mantissa has
  nothing that decoding drops (`ofInt?_toInt_iff`).
-/

namespace BlockRules.Target

variable {m m' size size' mantissa : Nat}

/-! ## Whole bytes -/

theorem leading_of_le (small : size ≤ 3) : leading m size = m * 256 ^ (3 - size) := by
  rw [leading, Nat.mul_div_assoc _ (Nat.pow_dvd_pow _ small), Nat.pow_div small (by decide)]

theorem leading_of_ge (large : 3 ≤ size) : leading m size = m / 256 ^ (size - 3) := by
  have split : 256 ^ size = 256 ^ 3 * 256 ^ (size - 3) := by
    rw [← Nat.pow_add, Nat.add_sub_cancel' large]
  rw [leading, split, ← Nat.div_div_eq_div_mul, Nat.mul_div_cancel _ (by decide)]

theorem scaled_of_le (small : size ≤ 3) : scaled mantissa size = mantissa / 256 ^ (3 - size) := by
  have split : 256 ^ 3 = 256 ^ size * 256 ^ (3 - size) := by
    rw [← Nat.pow_add, Nat.add_sub_cancel' small]
  rw [scaled, split, ← Nat.div_div_eq_div_mul, Nat.mul_div_cancel _ (Nat.pow_pos (by decide))]

theorem scaled_of_ge (large : 3 ≤ size) : scaled mantissa size = mantissa * 256 ^ (size - 3) := by
  rw [scaled, Nat.mul_div_assoc _ (Nat.pow_dvd_pow _ large), Nat.pow_div large (by decide)]

/-- Decoding what was encoded next to a size cuts off the bytes that the mantissa does not reach. -/
theorem scaled_leading (m size : Nat) :
    scaled (leading m size) size = m / 256 ^ (size - 3) * 256 ^ (size - 3) := by
  rcases Nat.le_total size 3 with small | large
  · rw [scaled_of_le small, leading_of_le small, Nat.mul_div_cancel _ (Nat.pow_pos (by decide)),
      Nat.sub_eq_zero_of_le small, Nat.pow_zero, Nat.div_one, Nat.mul_one]
  · rw [scaled_of_ge large, leading_of_ge large]

/-- Encoding what was decoded next to a size gives the mantissa back, unless decoding dropped some
of its bytes. -/
theorem leading_scaled_eq_iff :
    leading (scaled mantissa size) size = mantissa ↔ 256 ^ (3 - size) ∣ mantissa := by
  rcases Nat.le_total size 3 with small | large
  · rw [scaled_of_le small, leading_of_le small]
    exact ⟨Dvd.intro_left _, Nat.div_mul_cancel⟩
  · rw [scaled_of_ge large, leading_of_ge large, Nat.mul_div_cancel _ (Nat.pow_pos (by decide)),
      Nat.sub_eq_zero_of_le large, Nat.pow_zero]
    exact iff_of_true rfl (one_dvd _)

/-- A mantissa taken from a number has nothing that decoding drops. -/
theorem leading_scaled_leading (m size : Nat) :
    leading (scaled (leading m size) size) size = leading m size := by
  rw [leading_scaled_eq_iff]
  rcases Nat.le_total size 3 with small | large
  · rw [leading_of_le small]
    exact Dvd.intro_left _ rfl
  · rw [Nat.sub_eq_zero_of_le large, Nat.pow_zero]
    exact one_dvd _

/-! ## The size of a number -/

/-- Next to the size the number has a mantissa that reaches into the upper two of its three bytes,
and not into the sign bit. -/
def Normal (m size : Nat) : Prop := 2 ^ 15 ≤ leading m size ∧ leading m size < 2 ^ 23

/-- The numbers with one size are an interval, and those with the next size begin where it ends. -/
theorem normal_iff :
    Normal m size ↔
      2 ^ 15 * 256 ^ size ≤ m * 256 ^ 3 ∧ m * 256 ^ 3 < 2 ^ 15 * 256 ^ (size + 1) := by
  have positive : 0 < 256 ^ size := Nat.pow_pos (by decide)
  have next : 2 ^ 15 * 256 ^ (size + 1) = 2 ^ 23 * 256 ^ size := by
    rw [Nat.pow_succ']
    ring
  rw [Normal, leading, Nat.le_div_iff_mul_le positive, Nat.div_lt_iff_lt_mul positive, next]

namespace Normal

theorem pos (normal : Normal m size) : 0 < m := by
  rcases Nat.eq_zero_or_pos m with rfl | positive
  · have some := normal.1
    rw [leading, Nat.zero_mul, Nat.zero_div] at some
    exact absurd some (by decide)
  · exact positive

/-- A larger number has no smaller size. -/
theorem size_le (normal : Normal m size) (normal' : Normal m' size') (le : m ≤ m') :
    size ≤ size' := by
  by_contra smaller
  have more : 256 ^ (size' + 1) ≤ 256 ^ size :=
    Nat.pow_le_pow_right (by decide) (Nat.lt_of_not_le smaller)
  have := (normal_iff.1 normal).1
  have := (normal_iff.1 normal').2
  omega

/-- There is no other size. -/
theorem unique (normal : Normal m size) (normal' : Normal m size') : size = size' :=
  le_antisymm (normal.size_le normal' le_rfl) (normal'.size_le normal le_rfl)

/-- What is cut off leaves the size as it is. -/
theorem scaled_leading (normal : Normal m size) : Normal (scaled (leading m size) size) size := by
  rw [Normal, leading_scaled_leading]
  exact normal

end Normal

/-- The encoder finds the size of every number but zero. -/
theorem exists_normal (positive : 0 < m) :
    ∃ size, fields m = (size, leading m size) ∧ Normal m size := by
  -- a number that has a byte in front has a mantissa of three bytes next to the number of its bytes
  have front : 2 ^ 16 ≤ leading m (byteLength m) := by
    obtain ⟨bytes, length⟩ : ∃ bytes, byteLength m = bytes + 1 := by
      refine Nat.exists_eq_succ_of_ne_zero fun none => ?_
      have := byteLength_le_iff.1 none.le
      omega
    have reaches : 256 ^ bytes ≤ m := by
      by_contra short
      have := byteLength_le_iff.2 (Nat.lt_of_not_le short)
      omega
    rw [length, leading, Nat.le_div_iff_mul_le (Nat.pow_pos (by decide)), Nat.pow_succ']
    omega
  have below := leading_byteLength_lt m
  rcases fields_cases m with ⟨signed, fields⟩ | ⟨free, fields⟩
  · refine ⟨byteLength m + 1, fields, ?_⟩
    rw [Normal, leading_succ]
    omega
  · exact ⟨byteLength m, fields, by omega, free⟩

/-- A magnitude in normal form has its size and its leading bytes as fields. -/
theorem fields_of_normal (normal : Normal m size) : fields m = (size, leading m size) := by
  obtain ⟨size', fields, normal'⟩ := exists_normal normal.pos
  rw [normal.unique normal', fields]

theorem fields_zero : fields 0 = (0, 0) := by decide

/-- The numbers of at most 255 bytes, the last one without its top bit. -/
theorem fields_fst_le_iff : (fields m).1 ≤ 255 ↔ m < 2 ^ 2039 := by
  -- said of any bit and byte, so that no power is worked out
  have powers (bit byte : Nat) (bits : byte = bit ^ 8) : bit ^ 2039 * byte ^ 3 =
      bit ^ 15 * byte ^ 256 := by
    rw [bits]
    ring
  have limit := powers 2 256 rfl
  rw [← Nat.mul_lt_mul_right (Nat.pow_pos (n := 3) (show 0 < 256 by decide)), limit]
  rcases Nat.eq_zero_or_pos m with rfl | positive
  · rw [fields_zero, Nat.zero_mul]
    exact iff_of_true (Nat.zero_le _) (Nat.mul_pos (by decide) (Nat.pow_pos (by decide)))
  · obtain ⟨size, fields, normal⟩ := exists_normal positive
    have bounds := normal_iff.1 normal
    rw [fields]
    constructor
    · intro byte
      have : 256 ^ (size + 1) ≤ 256 ^ 256 :=
        Nat.pow_le_pow_right (by decide) (Nat.succ_le_succ byte)
      omega
    · intro small
      by_contra byte
      have : 256 ^ 256 ≤ 256 ^ size := Nat.pow_le_pow_right (by decide) (Nat.lt_of_not_le byte)
      omega

/-! ## What is kept of a number -/

/-- What the encoding keeps of a magnitude in normal form: its three leading bytes in place. -/
theorem kept_of_normal (normal : Normal m size) : kept m = scaled (leading m size) size := by
  rw [kept, fields_of_normal normal]

theorem kept_zero : kept 0 = 0 := by decide

/-- Of a number that has anything, something is kept. -/
theorem kept_pos (positive : 0 < m) : 0 < kept m := by
  obtain ⟨size, -, normal⟩ := exists_normal positive
  rw [kept_of_normal normal]
  exact normal.scaled_leading.pos

/-- A number that was cut once is not cut again. -/
theorem fields_kept (m : Nat) : fields (kept m) = fields m := by
  rcases Nat.eq_zero_or_pos m with rfl | positive
  · rw [kept_zero]
  · obtain ⟨size, fields, normal⟩ := exists_normal positive
    rw [kept_of_normal normal, fields, fields_of_normal normal.scaled_leading,
      leading_scaled_leading]

/-- What is lost is less than one part in `2 ^ 15` of what is kept. -/
theorem lost_lt_kept (positive : 0 < m) : 2 ^ 15 * (m - kept m) < kept m := by
  obtain ⟨size, -, normal⟩ := exists_normal positive
  have some := kept_pos positive
  rw [kept_of_normal normal, scaled_leading] at some ⊢
  have unit : 0 < 256 ^ (size - 3) := Nat.pow_pos (by decide)
  have lost := Nat.mod_lt m unit
  have parts := Nat.div_add_mod' m (256 ^ (size - 3))
  rcases Nat.lt_or_ge size 3 with small | large
  · -- the number is shorter than the mantissa
    rw [Nat.sub_eq_zero_of_le small.le] at some ⊢
    simpa using some
  · have digits : 2 ^ 15 * 256 ^ (size - 3) ≤ m / 256 ^ (size - 3) * 256 ^ (size - 3) := by
      rw [← leading_of_ge large]
      exact Nat.mul_le_mul_right _ normal.1
    omega

/-- Cutting numbers keeps their order. -/
theorem kept_mono (le : m ≤ m') : kept m ≤ kept m' := by
  rcases Nat.eq_zero_or_pos m with rfl | positive
  · rw [kept_zero]
    exact Nat.zero_le _
  obtain ⟨size, -, normal⟩ := exists_normal positive
  obtain ⟨size', -, normal'⟩ := exists_normal (positive.trans_le le)
  rcases (normal.size_le normal' le).eq_or_lt with rfl | smaller
  · rw [kept_of_normal normal, kept_of_normal normal', scaled_leading, scaled_leading]
    exact Nat.mul_le_mul_right _ (Nat.div_le_div_right le)
  · -- the larger number keeps at least the least number of its size, which is above the other one
    have more : 256 ^ (size + 1) ≤ 256 ^ size' := Nat.pow_le_pow_right (by decide) smaller
    have below := (normal_iff.1 normal).2
    have least : 2 ^ 15 * 256 ^ size' ≤ leading m' size' * 256 ^ size' :=
      Nat.mul_le_mul_right _ normal'.1
    refine (kept_le m).trans ?_
    rw [kept_of_normal normal', scaled, Nat.le_div_iff_mul_le (by decide)]
    omega

/-! ## Numbers without a form -/

variable {v v' : Int} {t t' : Target}

/-- Without a form are the numbers that need more than 255 bytes, or the top bit of that many. -/
theorem ofInt?_eq_error_iff (fits : FitsWords v) :
    (∃ cause, ofInt? v = .error (.format cause)) ↔ 2 ^ 2039 ≤ v.natAbs := by
  rw [← Nat.not_lt, ← fields_fst_le_iff, Nat.not_le, ofInt?_of_fits fits]
  split
  next large => exact iff_of_true ⟨_, rfl⟩ large
  next byte =>
    refine iff_of_false ?_ byte
    rintro ⟨cause, refused⟩
    cases refused

theorem exists_ofInt?_iff (fits : FitsWords v) :
    (∃ t, ofInt? v = .ok t) ↔ v.natAbs < 2 ^ 2039 := by
  rw [← fields_fst_le_iff, ofInt?_of_fits fits]
  split
  next large =>
    refine iff_of_false ?_ (Nat.not_le.2 large)
    rintro ⟨t, given⟩
    cases given
  next byte => exact iff_of_true ⟨_, rfl⟩ (Nat.le_of_not_lt byte)

/-! ## There and back -/

theorem natAbs_toInt_of_ofInt? (fits : FitsWords v) (given : ofInt? v = .ok t) :
    t.toInt.natAbs = kept v.natAbs := by
  rw [toInt_of_ofInt? fits given]
  split <;> omega

/-- The sign of a number is kept. -/
theorem sign_toInt_of_ofInt? (fits : FitsWords v) (given : ofInt? v = .ok t) :
    t.toInt.sign = v.sign := by
  rw [toInt_of_ofInt? fits given]
  rcases lt_trichotomy v 0 with negative | rfl | positive
  · have some : 0 < kept v.natAbs := kept_pos (by omega)
    rw [if_pos negative, Int.sign_eq_neg_one_of_neg negative,
      Int.sign_eq_neg_one_of_neg (by omega)]
  · rfl
  · have some : 0 < kept v.natAbs := kept_pos (by omega)
    rw [if_neg (by omega), Int.sign_eq_one_of_pos positive, Int.sign_eq_one_of_pos (by omega)]

/-- A number that was decoded from its form is encoded as this form. -/
theorem ofInt?_toInt_of_ofInt? (fits : FitsWords v) (given : ofInt? v = .ok t) :
    ofInt? t.toInt = .ok t := by
  have negative : t.toInt < 0 ↔ v < 0 := by
    rw [← Int.sign_eq_neg_one_iff_neg, sign_toInt_of_ofInt? fits given,
      Int.sign_eq_neg_one_iff_neg]
  obtain ⟨byte, exponent, mantissa, sign⟩ := (ofInt?_eq_ok_iff fits).1 given
  rw [ofInt?_eq_ok_iff t.fitsWords_toInt, natAbs_toInt_of_ofInt? fits given,
    fields_kept]
  refine ⟨byte, exponent, mantissa, ?_⟩
  rw [sign, decide_eq_decide, negative]

/-- The forms of numbers are in the order of the numbers. -/
theorem toInt_mono (fits : FitsWords v) (fits' : FitsWords v') (le : v ≤ v')
    (given : ofInt? v = .ok t) (given' : ofInt? v' = .ok t') : t.toInt ≤ t'.toInt := by
  rw [toInt_of_ofInt? fits given, toInt_of_ofInt? fits' given']
  by_cases negative : v < 0
  · by_cases negative' : v' < 0
    · have : kept v'.natAbs ≤ kept v.natAbs := kept_mono (by omega)
      rw [if_pos negative, if_pos negative']
      omega
    · rw [if_pos negative, if_neg negative']
      omega
  · have : kept v.natAbs ≤ kept v'.natAbs := kept_mono (by omega)
    rw [if_neg negative, if_neg (by omega)]
    omega

/-! ## The forms that the encoder chooses -/

theorem eq_zero_iff : t.compact = 0 ↔
    t.exponent = 0 ∧ t.mantissa = 0 ∧ t.signBit = false := by
  rw [← UInt32.toNat_inj, UInt32.toNat_zero, exponent, Target.mantissa, signBit,
    decide_eq_false_iff_not]
  omega

/-- The mantissa is read back exactly if the exponent cuts off no byte of it but zeros. -/
theorem leading_magnitude_eq_iff :
    leading t.magnitude t.exponent = t.mantissa ↔ 256 ^ (3 - t.exponent) ∣ t.mantissa := by
  rw [magnitude_eq, leading_scaled_eq_iff]

/-- A form of zero is the one that the encoder chooses if it is all zeros. -/
theorem ofInt?_toInt_iff_of_zero (zero : t.magnitude = 0) :
    ofInt? t.toInt = .ok t ↔ t.compact = 0 := by
  have value : t.toInt = 0 := Int.natAbs_eq_zero.1 ((natAbs_toInt t).trans zero)
  rw [ofInt?_eq_ok_iff t.fitsWords_toInt, value, Int.natAbs_zero, fields_zero, eq_zero_iff]
  exact and_iff_right (Nat.zero_le _)

/-- Any other form is if its size is the one of its number and decoding drops nothing of its
mantissa. -/
theorem ofInt?_toInt_iff_of_pos (positive : 0 < t.magnitude) :
    ofInt? t.toInt = .ok t ↔ 2 ^ 15 ≤ t.mantissa ∧ 256 ^ (3 - t.exponent) ∣ t.mantissa := by
  have byte := t.exponent_le
  have negative : t.toInt < 0 ↔ t.signBit = true := by
    rw [toInt]
    split <;> simp_all
  obtain ⟨size, fields, normal⟩ := exists_normal positive
  rw [ofInt?_eq_ok_iff t.fitsWords_toInt, natAbs_toInt, fields, ← leading_magnitude_eq_iff]
  constructor
  · rintro ⟨-, rfl, mantissa, -⟩
    rw [mantissa]
    exact ⟨normal.1, rfl⟩
  · rintro ⟨large, whole⟩
    have own : Normal t.magnitude t.exponent := by
      rw [Normal, whole]
      exact ⟨large, t.mantissa_lt⟩
    obtain rfl := normal.unique own
    have some : leading t.magnitude t.exponent ≠ 0 := by omega
    exact ⟨byte, rfl, whole.symm, by simp [negative, some]⟩

/-- **The forms that the encoder chooses.** -/
theorem ofInt?_toInt_iff : ofInt? t.toInt = .ok t ↔
    t.compact = 0 ∨ 1 ≤ t.exponent ∧ 2 ^ 15 ≤ t.mantissa ∧
      (t.exponent < 3 → 256 ^ (3 - t.exponent) ∣ t.mantissa) := by
  have whole_iff : 256 ^ (3 - t.exponent) ∣ t.mantissa ↔
      (t.exponent < 3 → 256 ^ (3 - t.exponent) ∣ t.mantissa) := by
    refine ⟨fun whole _ => whole, fun whole => ?_⟩
    rcases Nat.lt_or_ge t.exponent 3 with small | large
    · exact whole small
    · rw [Nat.sub_eq_zero_of_le large, Nat.pow_zero]
      exact one_dvd _
  rw [← whole_iff]
  rcases Nat.eq_zero_or_pos t.magnitude with zero | positive
  · rw [ofInt?_toInt_iff_of_zero zero]
    refine ⟨.inl, ?_⟩
    rintro (zeros | ⟨-, large, whole⟩)
    · exact zeros
    · -- such a mantissa is the one of a number that is not zero
      rw [← leading_magnitude_eq_iff, zero, leading, Nat.zero_mul, Nat.zero_div] at whole
      omega
  · rw [ofInt?_toInt_iff_of_pos positive]
    constructor
    · rintro ⟨large, whole⟩
      refine .inr ⟨Nat.one_le_iff_ne_zero.2 fun none => ?_, large, whole⟩
      -- without a size all three bytes are dropped
      rw [none] at whole
      have := Nat.le_of_dvd (by omega) whole
      have := t.mantissa_lt
      omega
    · rintro (zeros | ⟨-, large, whole⟩)
      · rw [magnitude_eq, scaled, (eq_zero_iff.1 zeros).2.1, Nat.zero_mul,
          Nat.zero_div] at positive
        exact absurd positive (lt_irrefl 0)
      · exact ⟨large, whole⟩

/-! ## Beyond the words -/

/-- There is a form if the size that is written is a byte. -/
theorem exists_ofInt?_iff_byte {size leading : UInt32}
    (read : fields? v.natAbs = .ok (size, leading)) :
    (∃ t, ofInt? v = .ok t) ↔ size.toNat ≤ 255 := by
  have large : 0xff < size ↔ 255 < size.toNat := UInt32.lt_iff_toNat_lt
  rw [ofInt?, read]
  dsimp only
  by_cases wide : 255 < size.toNat
  · rw [if_pos (large.2 wide)]
    refine iff_of_false ?_ (Nat.not_le.2 wide)
    rintro ⟨t, given⟩
    cases given
  · rw [if_neg (mt large.1 wide)]
    refine iff_of_true ?_ (Nat.le_of_not_lt wide)
    split
    next => exact ⟨_, rfl⟩
    next => exact ⟨_, rfl⟩

/-- The encoder breaks down exactly where the size and the mantissa cannot be worked out. -/
theorem ofInt?_eq_fault_iff {cause : Fault} :
    ofInt? v = .error (.fault cause) ↔ fields? v.natAbs = .error cause := by
  rw [ofInt?]
  rcases fields? v.natAbs with cause' | ⟨size, leading⟩
  · simp
  · dsimp only
    refine iff_of_false (fun fault => ?_) (fun broken => ?_)
    · split at fault
      next => cases fault
      next => split at fault <;> cases fault
    · cases broken

/-- The leading bytes of a number next to the number of its bytes as a word. -/
def leadingBytes (m : Nat) : UInt32 :=
  UInt32.ofNat (if byteLength m % 2 ^ 32 ≤ 3 then m <<< (8 * (3 - byteLength m % 2 ^ 32))
    else m >>> (8 * (byteLength m % 2 ^ 32 - 3)))

theorem leading?_word (m : Nat) : leading? m (UInt32.ofNat (byteLength m)) =
    if byteLength m % 2 ^ 32 ≤ 2 ^ 29 + 2 then .ok (leadingBytes m)
      else .error .wordOverflow := by
  rw [leading?_eq, UInt32.toNat_ofNat']
  rfl

/-- Their place is worked out from the number of bytes as a word. -/
theorem ofInt?_eq_overflow_iff : ofInt? v = .error (.fault .wordOverflow) ↔
    2 ^ 29 + 2 < byteLength v.natAbs % 2 ^ 32 := by
  rw [ofInt?_eq_fault_iff, fields?, leading?_word]
  by_cases placed : byteLength v.natAbs % 2 ^ 32 ≤ 2 ^ 29 + 2
  · rw [if_pos placed]
    dsimp only
    refine iff_of_false (fun fault => ?_) (Nat.not_lt.2 placed)
    split at fault <;> cases fault
  · rw [if_neg placed]
    exact iff_of_true rfl (Nat.lt_of_not_le placed)

/-- Next to a size of 255 the sign bit is the last bit that a form has room for. -/
theorem signBit_of_255 (full : byteLength m % 2 ^ 32 = 255) :
    leadingBytes m &&& 0x00800000 ≠ 0 ↔ m.testBit 2039 = true := by
  have word : leadingBytes m = UInt32.ofNat (m >>> 2016) := by
    rw [leadingBytes, full]
    rfl
  rw [word, and_signBit_iff_testBit, UInt32.toNat_ofNat', Nat.testBit_mod_two_pow,
    Nat.testBit_shiftRight]
  exact Bool.eq_iff_iff.1 (Bool.true_and _)

/-- Whatever a number is, there is a form if the number of its bytes as a word is a byte, and is one
also where the sign bit asks for one more. -/
theorem exists_ofInt?_iff_size : (∃ t, ofInt? v = .ok t) ↔
    byteLength v.natAbs % 2 ^ 32 < 255 ∨
      byteLength v.natAbs % 2 ^ 32 = 255 ∧ v.natAbs.testBit 2039 = false := by
  have word : (UInt32.ofNat (byteLength v.natAbs)).toNat = byteLength v.natAbs % 2 ^ 32 :=
    UInt32.toNat_ofNat'
  have sign := @signBit_of_255 v.natAbs
  by_cases placed : byteLength v.natAbs % 2 ^ 32 ≤ 2 ^ 29 + 2
  · have read := leading?_word v.natAbs
    rw [if_pos placed] at read
    by_cases signed : leadingBytes v.natAbs &&& 0x00800000 ≠ 0
    -- the size goes up by one, and must still be a byte
    · have fields : fields? v.natAbs = .ok (UInt32.ofNat (byteLength v.natAbs) + 1,
          leadingBytes v.natAbs >>> 8) := by
        rw [fields?, read]
        exact if_pos signed
      have next : (UInt32.ofNat (byteLength v.natAbs) + 1).toNat =
          byteLength v.natAbs % 2 ^ 32 + 1 := by
        rw [UInt32.toNat_add, word]
        exact Nat.mod_eq_of_lt (show byteLength v.natAbs % 2 ^ 32 + 1 < 2 ^ 32 by omega)
      rw [exists_ofInt?_iff_byte fields, next]
      constructor
      · intro byte
        exact .inl byte
      · rintro (short | ⟨full, clear⟩)
        · exact short
        · rw [(sign full).1 signed] at clear
          cases clear
    -- a size of 255 is kept exactly if the bit that would be taken for a sign is clear
    · have fields : fields? v.natAbs = .ok (UInt32.ofNat (byteLength v.natAbs),
          leadingBytes v.natAbs) := by
        rw [fields?, read]
        exact if_neg signed
      rw [exists_ofInt?_iff_byte fields, word, Nat.le_iff_lt_or_eq]
      refine or_congr_right (iff_self_and.2 fun full => ?_)
      rwa [sign full, Bool.not_eq_true] at signed
  · refine iff_of_false ?_ (by omega)
    rintro ⟨t, given⟩
    rw [ofInt?_eq_overflow_iff.2 (Nat.lt_of_not_le placed)] at given
    cases given

/-- **The compact form as a code.**

* For an integer that fits the words of the encoder, of up to `2 ^ 32 + 16` bits, there is no form
  exactly if its absolute value is `2 ^ 2039` or more. Otherwise its form stands for an integer of
  the same sign that is not larger in absolute value, by less than one part in `2 ^ 15` of what is
  left, and that has this very form. The order of such integers is the order of what their forms
  stand for.
* Of any other integer the encoder sees the number of bytes as a word. There is a fault if the place
  of the leading bytes overflows, and where the word is a byte there is a form of an integer that
  has none.
* A form is the one of the integer it stands for exactly if it is all zeros, or its size is at least
  one, its mantissa is at least `0x8000`, and what a size below three drops of the mantissa is
  zero. -/
theorem compact_code (v : Int) :
    (FitsWords v →
      ((∃ t, ofInt? v = .ok t) ↔ |v| < 2 ^ 2039) ∧
      ((∃ cause, ofInt? v = .error (.format cause)) ↔ 2 ^ 2039 ≤ |v|) ∧
      (∀ t, ofInt? v = .ok t → t.toInt.sign = v.sign ∧ |t.toInt| ≤ |v| ∧
        (v ≠ 0 → 2 ^ 15 * (|v| - |t.toInt|) < |t.toInt|) ∧ ofInt? t.toInt = .ok t) ∧
      ∀ v', FitsWords v' → v ≤ v' → ∀ t t', ofInt? v = .ok t → ofInt? v' = .ok t' →
        t.toInt ≤ t'.toInt) ∧
    (¬FitsWords v → 2 ^ 2039 ≤ |v| ∧
      (ofInt? v = .error (.fault .wordOverflow) ↔ 2 ^ 29 + 2 < byteLength v.natAbs % 2 ^ 32) ∧
      ((∃ t, ofInt? v = .ok t) ↔ byteLength v.natAbs % 2 ^ 32 < 255 ∨
        byteLength v.natAbs % 2 ^ 32 = 255 ∧ v.natAbs.testBit 2039 = false)) ∧
    ∀ t : Target, ofInt? t.toInt = .ok t ↔
      t.compact = 0 ∨ 1 ≤ t.exponent ∧ 0x8000 ≤ t.mantissa ∧
        (t.exponent < 3 → 256 ^ (3 - t.exponent) ∣ t.mantissa) := by
  have size : |v| = v.natAbs := Int.abs_eq_natAbs v
  refine ⟨fun fits => ⟨?_, ?_, fun t given => ?_, ?_⟩, fun long => ⟨?_, ?_, ?_⟩,
    fun t => ofInt?_toInt_iff⟩
  · rw [exists_ofInt?_iff fits, size]
    exact_mod_cast Iff.rfl
  · rw [ofInt?_eq_error_iff fits, size]
    exact_mod_cast Iff.rfl
  · have cut := kept_le v.natAbs
    have rest := natAbs_toInt_of_ofInt? fits given
    refine ⟨sign_toInt_of_ofInt? fits given, ?_, fun nonzero => ?_,
      ofInt?_toInt_of_ofInt? fits given⟩
    · rw [size, Int.abs_eq_natAbs, rest]
      exact_mod_cast cut
    · have lost := lost_lt_kept (Int.natAbs_pos.2 nonzero)
      rw [size, Int.abs_eq_natAbs, rest]
      omega
  · intro v' fits' le t t' given given'
    exact toInt_mono fits fits' le given given'
  · by_contra short
    rw [size] at short
    have below : v.natAbs < 2 ^ 2039 := by exact_mod_cast Int.not_le.1 short
    exact long (FitsWords.of_lt below (by decide))
  · exact ofInt?_eq_overflow_iff
  · exact exists_ofInt?_iff_size

/-- A number of four bytes, below zero and with a first byte that would be read as a sign, takes a
size of five and loses two bytes. -/
theorem two_bytes_cut :
    let v : Int := -0xfedcba98
    let t : Target := ⟨0x0580fedc⟩
    ofInt? v = .ok t ∧ t.toInt = -0xfedc0000 ∧ |t.toInt| ≤ |v| ∧
      2 ^ 15 * (|v| - |t.toInt|) < |t.toInt| ∧ ofInt? t.toInt = .ok t ∧ t.toInt ≤ 0 := by
  intro v t
  have given : ofInt? v = .ok t := by decide
  have given' : ofInt? 0 = .ok ⟨0⟩ := by decide
  have fits : FitsWords v := FitsWords.of_lt (show v.natAbs < 2 ^ 32 by decide) (by decide)
  have fits' : FitsWords 0 := FitsWords.of_lt (show (0 : Int).natAbs < 2 ^ 0 by decide) (by decide)
  obtain ⟨-, -, one, order⟩ := (compact_code v).1 fits
  obtain ⟨-, less, lost, back⟩ := one t given
  exact ⟨given, by decide, less, lost (by decide), back,
    order 0 fits' (by decide) t ⟨0⟩ given given'⟩

/-- A power of two whose number of bytes comes to one as a word has the form of a number of one byte
that is zero. -/
theorem ofInt?_two_pow {k : Nat} (large : 16 ≤ k) (wraps : (k + 8) / 8 % 2 ^ 32 = 1) :
    ofInt? (2 ^ k) = .ok ⟨0x01000000⟩ := by
  have size : UInt32.ofNat (byteLength (2 ^ k)) = 1 := by
    have bits : bitLength (2 ^ k) = k + 1 := by
      rw [bitLength, if_neg (Nat.two_pow_pos k).ne', Nat.log2_two_pow]
    rw [← UInt32.toNat_inj, UInt32.toNat_ofNat', byteLength, bits]
    exact wraps
  have nothing : UInt32.ofNat (2 ^ k <<< 16) = 0 := by
    rw [← UInt32.toNat_inj, UInt32.toNat_ofNat', Nat.shiftLeft_eq, ← Nat.pow_add]
    exact Nat.mod_eq_zero_of_dvd (Nat.pow_dvd_pow 2 (by omega))
  have read : fields? (2 ^ k) = .ok (1, 0) := by
    have leading : leading? (2 ^ k) 1 = .ok (UInt32.ofNat (2 ^ k <<< 16)) := rfl
    rw [fields?, size, leading, nothing]
    rfl
  have natural : ¬((2 : Int) ^ k < 0) := Int.not_lt.2 (Int.pow_nonneg (by decide))
  have value : ((2 : Int) ^ k).natAbs = 2 ^ k := Int.natAbs_pow 2 k
  rw [ofInt?, value, read]
  dsimp only
  rw [if_neg (by decide), if_neg (fun both => natural both.1)]
  rfl

/-- A number of `2 ^ 32 + 1` bytes is far beyond those with a form, and has one. -/
theorem byte_count_wraps :
    2 ^ 2039 ≤ |(2 : Int) ^ 2 ^ 35| ∧ ofInt? (2 ^ 2 ^ 35) = .ok ⟨0x01000000⟩ := by
  refine ⟨?_, ofInt?_two_pow (by decide) (by decide)⟩
  rw [abs_pow]
  exact pow_le_pow_right₀ (by decide) (by decide)

end BlockRules.Target
