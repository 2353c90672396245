import Mathlib
import BlockRules.Chain.Retarget
import BlockRules.Target.Lemmas

/-!
# The difficulty rule, part by part

`Entry.nextBits` computes in machine words, and where a word does not hold a value it ends with
a fault. This module says of each part when that is and what the part gives otherwise.

* **parameters** — `Params.validate_eq_ok_iff`: what a check of the parameters leaves open. A
  valid network has a period of one block at least (`Params.interval_of_valid`);
* **the end of a period** — `Params.retarget_of_fits` and `Params.retarget_of_long`: a period
  below `2 ^ 61` seconds is worked with, and a longer one is a fault, because four times its
  length, or the length itself, is no signed word;
* **within a period** — `bitsWithinPeriod_of_fits` and `bitsWithinPeriod_of_late`: two spacings
  after the last block must be an unsigned word.
-/

namespace BlockRules

namespace Params

variable {params : Params}

/-- What the check of parameters asks for. -/
theorem validate_eq_ok_iff : params.validate = .ok () ↔
    0 < params.targetSpacing.toNat ∧
    params.targetSpacing.toNat ≤ params.targetTimespan.toNat ∧
      params.powLimit.inRange = true := by
  have zero : params.targetSpacing = 0 ↔ ¬ 0 < params.targetSpacing.toNat := by
    rw [← UInt64.toNat_inj, UInt64.toNat_zero]
    omega
  have short : params.targetTimespan < params.targetSpacing ↔
      ¬ params.targetSpacing.toNat ≤ params.targetTimespan.toNat := by
    rw [UInt64.lt_iff_toNat_lt, Nat.not_le]
  simp only [validate, zero, short]
  by_cases spacing : 0 < params.targetSpacing.toNat
  · by_cases order : params.targetSpacing.toNat ≤ params.targetTimespan.toNat
    · cases limit : params.powLimit.inRange <;> simp [spacing, order]
    · simp [spacing, order]
  · simp [spacing]

/-- The number of blocks in a period, by the numbers. -/
def blocks (params : Params) : Nat := params.targetTimespan.toNat / params.targetSpacing.toNat

/-- On validated parameters the interval is a positive number of blocks, with no fault. -/
theorem interval_of_valid (valid : params.validate = .ok ()) :
    params.interval = .ok params.blocks ∧ 0 < params.blocks := by
  obtain ⟨spacing, order, -⟩ := validate_eq_ok_iff.1 valid
  have nonzero : params.targetSpacing ≠ 0 := by
    rintro zero
    rw [zero] at spacing
    cases spacing
  exact ⟨if_neg nonzero, Nat.div_pos order spacing⟩

/-! ## The end of a period -/

/-- The period as a signed word: from `2 ^ 63` on it is read as a negative number. -/
theorem signedTimespan_eq : params.signedTimespan =
    (params.targetTimespan.toNat : Int).bmod 18446744073709551616 := by
  show params.targetTimespan.toBitVec.toInt = _
  rw [BitVec.toInt_eq_toNat_bmod]
  rfl

/-- A timespan below `2 ^ 61` is the same number in 64 signed bits. -/
theorem signedTimespan_of_fits (fits : params.targetTimespan.toNat < 2 ^ 61) :
    params.signedTimespan = params.targetTimespan.toNat := by
  rw [signedTimespan_eq, Int.bmod_eq_of_le] <;> omega

/-- The time a period took, within a factor of four of the planned one. -/
def clampedTime (params : Params) (lastTime firstTime : UInt32) : Int :=
  max (params.targetTimespan.toNat / 4 : Nat)
    (min (lastTime.toNat - firstTime.toNat : Int) (params.targetTimespan.toNat * 4 : Nat))

/-- The old target scaled by the time a period took. -/
def scaledTarget (params : Params) (bits : Target) (lastTime firstTime : UInt32) : Int :=
  (bits.toInt * params.clampedTime lastTime firstTime).tdiv params.targetTimespan.toNat

/-- The target for a number, which is the limit if the number is above it or has none. -/
def cappedTarget (params : Params) (scaled : Int) : Target :=
  if params.powLimit.toInt < scaled then params.powLimit
  else
    match Target.ofInt? scaled with
    | .ok target => target
    | .error _ => params.powLimit

/-- The words of the encoder hold a scaled target. -/
theorem fitsWords_scaledTarget {bits : Target} {lastTime firstTime : UInt32}
    (fits : params.targetTimespan.toNat < 2 ^ 61) :
    Target.FitsWords (params.scaledTarget bits lastTime firstTime) := by
  refine bits.fitsWords_mul_tdiv ?_ _
  rw [clampedTime]
  omega

/-- A period that fits the words gives a target. -/
theorem retarget_of_fits {bits : Target} {lastTime firstTime : UInt32}
    (retargets : params.noRetargeting = false) (positive : 0 < params.targetTimespan.toNat)
    (fits : params.targetTimespan.toNat < 2 ^ 61) :
    params.retarget bits lastTime firstTime =
      .ok (params.cappedTarget (params.scaledTarget bits lastTime firstTime)) := by
  have signed := signedTimespan_of_fits fits
  -- no step of the calculation overflows, and the bounds of the time are in order
  have quarter : (params.targetTimespan.toNat : Int).tdiv 4 =
      (params.targetTimespan.toNat / 4 : Nat) := by
    rw [Int.tdiv_eq_ediv_of_nonneg (Int.natCast_nonneg _)]
    omega
  have longest : signed64 ((params.targetTimespan.toNat : Int) * 4) =
      .ok (params.targetTimespan.toNat * 4 : Nat) := by
    rw [signed64, if_pos (by omega)]
    rfl
  have clamped :
    clampTo (params.targetTimespan.toNat / 4 : Nat) (params.targetTimespan.toNat * 4 : Nat)
      (lastTime.toNat - firstTime.toNat : Int) = .ok (params.clampedTime lastTime firstTime) :=
    if_neg (by omega)
  have nonzero : ¬ (params.targetTimespan.toNat : Int) = 0 := by omega
  have scaled : (bits.toInt * params.clampedTime lastTime firstTime).tdiv
      params.targetTimespan.toNat = params.scaledTarget bits lastTime firstTime := rfl
  simp only [retarget, retargets, signed, quarter, longest, clamped, if_neg nonzero,
    Bool.false_eq_true, if_false, bind, Except.bind, scaled, cappedTarget]
  split
  · rfl
  -- the encoder may refuse the number, which then is the limit, but cannot break down on it
  · have words := @fitsWords_scaledTarget params bits lastTime firstTime fits
    rcases encoded : Target.ofInt? (params.scaledTarget bits lastTime firstTime) with
      (_ | cause) | target
    · rfl
    · exact absurd encoded (Target.ofInt?_ne_fault words)
    · rfl

/-- A period that does not is a fault: four times its length overflows, or its length is read as
a negative number and the range around it is empty. -/
theorem retarget_of_long {bits : Target} {lastTime firstTime : UInt32}
    (retargets : params.noRetargeting = false) (long : 2 ^ 61 ≤ params.targetTimespan.toNat) :
    ∃ cause, params.retarget bits lastTime firstTime = .error cause := by
  have word : params.targetTimespan.toNat < 2 ^ 64 := params.targetTimespan.toNat_lt
  simp only [retarget, retargets, Bool.false_eq_true, if_false]
  by_cases held : -0x8000000000000000 ≤ params.signedTimespan * 4 ∧
      params.signedTimespan * 4 ≤ 0x7fffffffffffffff
  · -- only a length that is read as a small negative number is left
    have negative : params.signedTimespan < 0 := by
      by_contra nonnegative
      rw [signedTimespan_eq, Int.bmod_def] at held nonnegative
      split at held <;> omega
    have empty : params.signedTimespan * 4 < params.signedTimespan.tdiv 4 := by
      have quarter : params.signedTimespan.tdiv 4 = -(-params.signedTimespan / 4) := by
        rw [← Int.tdiv_eq_ediv_of_nonneg (by omega), Int.neg_tdiv, Int.neg_neg]
      omega
    refine ⟨.emptyRange, ?_⟩
    simp only [signed64, if_pos held, clampTo, bind, Except.bind, if_pos empty]
  · exact ⟨.wordOverflow, by simp only [signed64, if_neg held, bind, Except.bind]⟩

/-- Without retargeting the target stays. -/
theorem retarget_of_noRetargeting {bits : Target} {lastTime firstTime : UInt32}
    (keeps : params.noRetargeting = true) : params.retarget bits lastTime firstTime = .ok bits :=
  if_pos keeps

/-- There is a target if it stays, or if the period fits the words. -/
theorem exists_retarget {bits : Target} {lastTime firstTime : UInt32}
    (positive : 0 < params.targetTimespan.toNat)
    (works : params.noRetargeting = true ∨ params.targetTimespan.toNat < 2 ^ 61) :
    ∃ target, params.retarget bits lastTime firstTime = .ok target := by
  cases keeps : params.noRetargeting with
  | true => exact ⟨_, retarget_of_noRetargeting keeps⟩
  | false =>
    rw [keeps] at works
    exact ⟨_, retarget_of_fits keeps positive (works.resolve_left Bool.false_ne_true)⟩

end Params

namespace Entry

variable {headers : Headers} {params : Params} {interval : Nat} {last : Entry} {newTime : UInt32}

/-! ## Within a period -/

/-- The time after which a block may have the easiest target. -/
def lateAfter (headers : Headers) (params : Params) (last : Entry) : Nat :=
  (last.time headers).toNat + 2 * params.targetSpacing.toNat

/-- If that time is a word, there is a target. -/
theorem bitsWithinPeriod_of_fits
    (fits : params.allowMinDifficulty = true → lateAfter headers params last < 2 ^ 64) :
    bitsWithinPeriod headers params interval last newTime =
      .ok (if params.allowMinDifficulty then
          if lateAfter headers params last < newTime.toNat then params.powLimit
          else lastRegularBits headers params.powLimit interval last
        else last.bits headers) := by
  rw [bitsWithinPeriod]
  cases easy : params.allowMinDifficulty with
  | false => rfl
  | true =>
    have small : lateAfter headers params last < 2 ^ 64 := fits easy
    rw [lateAfter] at small
    have gap :
        unsigned64 (params.targetSpacing.toNat * 2) = .ok (2 * params.targetSpacing.toNat) := by
      rw [unsigned64, if_pos (by omega), Nat.mul_comm]
    have late : unsigned64 ((last.time headers).toNat + 2 * params.targetSpacing.toNat) =
        .ok (lateAfter headers params last) := if_pos (by omega)
    simp only [gap, late, if_true, bind, Except.bind, pure, Except.pure]
    split <;> rfl

/-- If it is none, there is a fault. -/
theorem bitsWithinPeriod_of_late (easy : params.allowMinDifficulty = true)
    (late : 2 ^ 64 ≤ lateAfter headers params last) :
    bitsWithinPeriod headers params interval last newTime = .error .wordOverflow := by
  rw [lateAfter] at late
  rw [bitsWithinPeriod, if_pos easy]
  by_cases gap : params.targetSpacing.toNat * 2 ≤ 0xffffffffffffffff
  · have exceeds :
        ¬ (last.time headers).toNat + params.targetSpacing.toNat * 2 ≤ 0xffffffffffffffff := by
      omega
    simp only [unsigned64, if_pos gap, if_neg exceeds, bind, Except.bind]
  · simp only [unsigned64, if_neg gap, bind, Except.bind]

/-- The target of the next block of a valid network, by the place of the block in its period. -/
theorem nextBits_of_valid (valid : params.validate = .ok ()) :
    nextBits headers params (some last) newTime =
      if (last.height + 1) % params.blocks = 0
        then bitsOfNewPeriod headers params params.blocks last
      else
        match bitsWithinPeriod headers params params.blocks last newTime with
        | .ok target => .ok target
        | .error cause => .error (.fault cause) := by
  obtain ⟨interval, positive⟩ := Params.interval_of_valid valid
  rw [nextBits, interval]
  rcases blocks : params.blocks with _ | n
  · omega
  · rfl

end Entry

end BlockRules
