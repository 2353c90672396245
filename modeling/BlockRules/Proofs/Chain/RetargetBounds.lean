import Mathlib
import BlockRules.Proofs.Chain.Retarget
import BlockRules.Proofs.Target.Compact

/-!
# How far a target moves

At the end of a period the target is scaled by the time the period took. This module says what the
result is worth, whatever the old target and the two times were.

* **the time** — `clampedTime` lies between a quarter of the planned time and four times of it,
  and grows with the time that passed (`quarter_le_clampedTime`, `clampedTime_le`,
  `clampedTime_mono`);
* **the number** — `scaledTarget` is a product rounded down, so it is at most four times the old
  target (`scaledTarget_le`), and it is not rounded down to nothing if there is a quarter to speak
  of (`scaledTarget_pos`);
* **the form** — `cappedTarget` is the limit, or the compact form of the number
  (`ofInt?_cappedTarget`), which loses little of it and keeps the order (`toInt_cappedTarget_mono`).
-/

namespace BlockRules.Params

variable {params : Params} {bits : Target} {lastTime firstTime lastTime' firstTime' : UInt32}

/-! ## The time -/

/-- The time taken is the measured one, kept between a quarter and four times the timespan. -/
theorem clampedTime_eq : params.clampedTime lastTime firstTime =
    max ((params.targetTimespan.toNat : Int) / 4)
      (min (lastTime.toNat - firstTime.toNat : Int) (4 * params.targetTimespan.toNat)) := by
  rw [clampedTime, Nat.mul_comm]
  push_cast
  rfl

theorem quarter_le_clampedTime :
    (params.targetTimespan.toNat : Int) / 4 ≤ params.clampedTime lastTime firstTime := by
  rw [clampedTime_eq]
  exact le_max_left _ _

theorem clampedTime_nonneg : 0 ≤ params.clampedTime lastTime firstTime :=
  (Int.ediv_nonneg (Int.natCast_nonneg _) (by decide)).trans quarter_le_clampedTime

theorem clampedTime_le :
    params.clampedTime lastTime firstTime ≤ 4 * params.targetTimespan.toNat := by
  rw [clampedTime_eq]
  omega

theorem clampedTime_mono
    (longer : (lastTime.toNat - firstTime.toNat : Int) ≤ lastTime'.toNat - firstTime'.toNat) :
    params.clampedTime lastTime firstTime ≤ params.clampedTime lastTime' firstTime' := by
  rw [clampedTime_eq, clampedTime_eq]
  exact max_le_max_left _ (min_le_min_right _ longer)

/-! ## The number -/

/-- The product is rounded down. -/
theorem scaledTarget_eq (natural : 0 ≤ bits.toInt) : params.scaledTarget bits lastTime firstTime =
    bits.toInt * params.clampedTime lastTime firstTime / params.targetTimespan.toNat := by
  exact Int.tdiv_eq_ediv_of_nonneg (Int.mul_nonneg natural clampedTime_nonneg)

theorem scaledTarget_nonneg (natural : 0 ≤ bits.toInt) :
    0 ≤ params.scaledTarget bits lastTime firstTime := by
  rw [scaledTarget_eq natural]
  exact Int.ediv_nonneg (Int.mul_nonneg natural clampedTime_nonneg) (Int.natCast_nonneg _)

theorem scaledTarget_le (natural : 0 ≤ bits.toInt) (positive : 0 < params.targetTimespan.toNat) :
    params.scaledTarget bits lastTime firstTime ≤ 4 * bits.toInt := by
  rw [scaledTarget_eq natural]
  refine Int.ediv_le_of_le_mul (Int.natCast_pos.2 positive) ?_
  calc bits.toInt * params.clampedTime lastTime firstTime
      ≤ bits.toInt * (4 * params.targetTimespan.toNat) :=
        Int.mul_le_mul_of_nonneg_left clampedTime_le natural
    _ = 4 * bits.toInt * params.targetTimespan.toNat := by ring

/-- A quarter of four seconds or more is at least a seventh, whatever is lost by rounding it. -/
theorem scaledTarget_pos (quarters : 4 ≤ params.targetTimespan.toNat) (large : 7 ≤ bits.toInt) :
    0 < params.scaledTarget bits lastTime firstTime := by
  have quarter := @quarter_le_clampedTime params lastTime firstTime
  rw [scaledTarget_eq (by omega), Int.lt_iff_add_one_le, zero_add,
    Int.le_ediv_iff_mul_le (by omega), one_mul]
  calc (params.targetTimespan.toNat : Int)
      ≤ 7 * (params.targetTimespan.toNat / 4) := by omega
    _ ≤ bits.toInt * params.clampedTime lastTime firstTime :=
        Int.mul_le_mul large quarter (by omega) (by omega)

theorem scaledTarget_mono (natural : 0 ≤ bits.toInt) (positive : 0 < params.targetTimespan.toNat)
    (longer : (lastTime.toNat - firstTime.toNat : Int) ≤ lastTime'.toNat - firstTime'.toNat) :
    params.scaledTarget bits lastTime firstTime ≤
      params.scaledTarget bits lastTime' firstTime' := by
  rw [scaledTarget_eq natural, scaledTarget_eq natural]
  exact Int.ediv_le_ediv (Int.natCast_pos.2 positive)
    (Int.mul_le_mul_of_nonneg_left (clampedTime_mono longer) natural)

/-! ## The form -/

variable {x x' : Int}

theorem cappedTarget_of_lt (above : params.powLimit.toInt < x) :
    params.cappedTarget x = params.powLimit :=
  if_pos above

theorem fitsWords_of_le (range : params.powLimit.inRange = true) (natural : 0 ≤ x)
    (below : x ≤ params.powLimit.toInt) : Target.FitsWords x := by
  have bounded := (Target.inRange_iff.1 range).2
  have word : x.natAbs < 2 ^ 256 := by omega
  exact Target.FitsWords.of_lt word (by decide)

/-- Up to the limit every number has a form. -/
theorem ofInt?_cappedTarget (range : params.powLimit.inRange = true) (natural : 0 ≤ x)
    (below : x ≤ params.powLimit.toInt) : Target.ofInt? x = .ok (params.cappedTarget x) := by
  have bounded := (Target.inRange_iff.1 range).2
  have word : x.natAbs < 2 ^ 256 := by omega
  have small : ¬ 2 ^ 2039 ≤ x.natAbs :=
    Nat.not_le.2 (word.trans_le (pow_le_pow_right₀ one_le_two (by decide)))
  obtain ⟨target, given⟩ :=
    (Target.exists_ofInt?_iff (fitsWords_of_le range natural below)).2 (Nat.lt_of_not_le small)
  rw [cappedTarget, if_neg (Int.not_lt.2 below), given]

/-- The target that is encoded is at most what was scaled, and at most the limit. -/
theorem toInt_cappedTarget_le (range : params.powLimit.inRange = true) (natural : 0 ≤ x) :
    (params.cappedTarget x).toInt ≤ min x params.powLimit.toInt := by
  rcases Int.lt_or_le params.powLimit.toInt x with above | below
  · rw [cappedTarget_of_lt above]
    exact le_min above.le le_rfl
  · have cut := Target.toInt_le_of_ofInt? (fitsWords_of_le range natural below)
      (ofInt?_cappedTarget range natural below)
    omega

/-- Below the limit the form loses less than one part in `2 ^ 15` of the number. -/
theorem lost_lt_toInt_cappedTarget (range : params.powLimit.inRange = true) (positive : 0 < x)
    (below : x ≤ params.powLimit.toInt) :
    2 ^ 15 * (x - (params.cappedTarget x).toInt) < (params.cappedTarget x).toInt := by
  have form := Target.toInt_of_ofInt? (fitsWords_of_le range positive.le below)
    (ofInt?_cappedTarget range positive.le below)
  have lost := Target.lost_lt_kept (Int.natAbs_pos.2 positive.ne')
  have cut := Target.kept_le x.natAbs
  rw [form, if_neg (by omega)]
  omega

theorem toInt_cappedTarget_nonneg (range : params.powLimit.inRange = true) (natural : 0 ≤ x) :
    0 ≤ (params.cappedTarget x).toInt := by
  have limit := (Target.inRange_iff.1 range).1
  rcases Int.lt_or_le params.powLimit.toInt x with above | below
  · rw [cappedTarget_of_lt above]
    exact limit.le
  · rw [Target.toInt_of_ofInt? (fitsWords_of_le range natural below)
      (ofInt?_cappedTarget range natural below), if_neg (by omega)]
    exact Int.natCast_nonneg _

/-- Capping and encoding keep the order. -/
theorem toInt_cappedTarget_mono (range : params.powLimit.inRange = true) (natural : 0 ≤ x)
    (le : x ≤ x') : (params.cappedTarget x).toInt ≤ (params.cappedTarget x').toInt := by
  rcases Int.lt_or_le params.powLimit.toInt x' with above | below
  · rw [cappedTarget_of_lt above]
    exact (toInt_cappedTarget_le range natural).trans (min_le_right _ _)
  · exact Target.toInt_mono (fitsWords_of_le range natural (le.trans below))
      (fitsWords_of_le range (natural.trans le) below) le
      (ofInt?_cappedTarget range natural (le.trans below))
      (ofInt?_cappedTarget range (natural.trans le) below)

/-- **A new target is bounded, and grows with the time.** Take a network that passes the check of
its parameters, retargets, and whose period is below `2 ^ 61` seconds, an old target above zero, and
two times. With `x` the old target times the time between them, moved to between a quarter of the
period and four periods, divided by the period and rounded down:

* there is a new target, at most the limit of the network and four times the old target;
* for an `x` above zero and up to the limit, it is at most `x`, by less than one part in `2 ^ 15` of
  itself; otherwise it is the limit or of no value;
* if the period is four seconds or more and the old target is seven or more, its value is above zero
  and below `2 ^ 256`;
* if more time passes, it is not smaller. -/
theorem retarget_bounded (valid : params.validate = .ok ())
    (retargets : params.noRetargeting = false)
    (fits : params.targetTimespan.toNat < 2 ^ 61) (positive : 0 < bits.toInt)
    (lastTime firstTime : UInt32) :
    let timespan : Int := params.targetTimespan.toNat
    let x :=
      bits.toInt * max (timespan / 4)
        (min (lastTime.toNat - firstTime.toNat) (4 * timespan)) / timespan
    ∃ target, params.retarget bits lastTime firstTime = .ok target ∧
      target.toInt ≤ params.powLimit.toInt ∧ target.toInt ≤ 4 * bits.toInt ∧
      (if x ≤ params.powLimit.toInt ∧ 0 < x then
        target.toInt ≤ x ∧ 2 ^ 15 * (x - target.toInt) < target.toInt
      else target = params.powLimit ∨ target.toInt = 0) ∧
      (4 ≤ timespan → 7 ≤ bits.toInt → 0 < target.toInt ∧ target.toInt < 2 ^ 256) ∧
      ∀ lastTime' firstTime' : UInt32,
        (lastTime.toNat - firstTime.toNat : Int) ≤ lastTime'.toNat - firstTime'.toNat →
        ∀ target', params.retarget bits lastTime' firstTime' = .ok target' →
          target.toInt ≤ target'.toInt := by
  obtain ⟨spacing, order, range⟩ := validate_eq_ok_iff.1 valid
  obtain ⟨limit, bounded⟩ := Target.inRange_iff.1 range
  have period : 0 < params.targetTimespan.toNat := spacing.trans_le order
  intro timespan x
  have scaled : params.scaledTarget bits lastTime firstTime = x := by
    rw [scaledTarget_eq positive.le, clampedTime_eq]
  have natural : 0 ≤ x := scaled ▸ scaledTarget_nonneg positive.le
  have less : x ≤ 4 * bits.toInt := scaled ▸ scaledTarget_le positive.le period
  have capped := toInt_cappedTarget_le range natural
  refine ⟨params.cappedTarget x, scaled ▸ retarget_of_fits retargets period fits, ?_, ?_,
    ?_, ?_, ?_⟩
  · exact capped.trans (min_le_right _ _)
  · exact capped.trans ((min_le_left _ _).trans less)
  · split
    next inside =>
      exact ⟨capped.trans (min_le_left _ _), lost_lt_toInt_cappedTarget range inside.2 inside.1⟩
    next outside =>
      rcases Int.lt_or_le params.powLimit.toInt x with above | below
      · exact .inl (cappedTarget_of_lt above)
      · -- an `x` that is neither above the limit nor above zero is zero
        have := toInt_cappedTarget_nonneg range natural
        exact .inr (by omega)
  · intro quarters large
    have some : 0 < x := scaled ▸ scaledTarget_pos (by omega) large
    refine ⟨?_, by omega⟩
    rcases Int.lt_or_le params.powLimit.toInt x with above | below
    · rw [cappedTarget_of_lt above]
      exact limit
    · have := lost_lt_toInt_cappedTarget range some below
      have := toInt_cappedTarget_nonneg range natural
      omega
  · intro lastTime' firstTime' longer target' given
    rw [retarget_of_fits retargets period fits] at given
    obtain rfl := Except.ok.inj given
    exact toInt_cappedTarget_mono range natural
      (scaled ▸ scaledTarget_mono positive.le period longer)

/-- A period of the main network that took two days less than planned. -/
theorem main_retarget_bounded :
    Params.main.validate = .ok () ∧ Params.main.noRetargeting = false ∧
      Params.main.targetTimespan.toNat < 2 ^ 61 ∧ 0 < Target.difficultyOne.toInt ∧
      ∃ target, Params.main.retarget .difficultyOne 1262152739 1261130161 = .ok target ∧
        target.compact = 0x1d00d86a ∧ 0 < target.toInt ∧ target.toInt < 2 ^ 256 ∧
        target.toInt ≤ 4 * Target.difficultyOne.toInt := by
  have valid : Params.main.validate = .ok () := by decide
  have value : Target.difficultyOne.toInt = 0xffff * 2 ^ 208 := by decide +kernel
  have positive : 0 < Target.difficultyOne.toInt := by
    rw [value]
    norm_num
  obtain ⟨target, given, -, quadruple, -, inRange, -⟩ :=
    retarget_bounded valid rfl (by decide) positive 1262152739 1261130161
  have form : Params.main.retarget .difficultyOne 1262152739 1261130161 = .ok ⟨0x1d00d86a⟩ := by
    decide +kernel
  obtain rfl := Except.ok.inj (given.symm.trans form)
  obtain ⟨some, bounded⟩ := inRange (by decide) (by rw [value]; norm_num)
  exact ⟨valid, rfl, by decide, positive, _, given, rfl, some, bounded, quadruple⟩

end BlockRules.Params
