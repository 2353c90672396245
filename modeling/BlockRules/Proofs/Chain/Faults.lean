import Mathlib
import BlockRules.Proofs.Chain.Growth
import BlockRules.Proofs.Chain.Retarget

/-!
# Networks with which the difficulty rule always works

A check of the parameters rejects a network without spacing, with a period shorter than one
block, or with a limit that is no target. It does not look at how large the two times are, and
the difficulty rule computes with them in machine words. This module says which networks the
words hold (`Params.FitsWords`), and that it is these and no others on which the rule never
ends with a fault (`nextBits_faultless`).

* the period is multiplied by four as a signed word. That matters only on networks that
  retarget, and only if a chain is high enough to see the end of a period;
* two spacings are added to a time as an unsigned word. That matters only on networks that
  allow easy blocks, and only if a period has a block that does not start one.

Both exceptions are taken by chains that growth can build (`exists_grown`).

What is computed for the log is no part of the rule: the event of a retarget states the next
height as a 32-bit word, which has no room for it on top of height `2 ^ 32 - 1`. The rule
itself takes heights as 64-bit words.
-/

namespace BlockRules

/-- The machine words of the difficulty rule hold what it comes to, on every chain. -/
structure Params.FitsWords (params : Params) : Prop where
  timespan : params.noRetargeting = true ∨ params.targetTimespan.toNat < 2 ^ 61 ∨
    2 ^ 32 < params.blocks
  gap : params.allowMinDifficulty = false ∨ params.blocks = 1 ∨
    2 ^ 32 - 1 + 2 * params.targetSpacing.toNat < 2 ^ 64

instance (params : Params) : Decidable params.FitsWords :=
  decidable_of_iff (_ ∧ _) ⟨fun h => ⟨h.1, h.2⟩, fun h => ⟨h.timespan, h.gap⟩⟩

namespace Entry

variable {params : Params}

/-- The next height, that the rule computes in a 64-bit word, is at most `2 ^ 32`, and the first
block of a period that ends is not below height zero. -/
theorem period_fits {last : Entry} (grown : Grown last) :
    last.height + 1 ≤ 2 ^ 32 ∧
      ((last.height + 1) % params.blocks = 0 → params.blocks - 1 ≤ last.height) := by
  refine ⟨grown.height_lt, ?_⟩
  intro ends
  have := Nat.le_of_dvd (Nat.succ_pos _) (Nat.dvd_of_mod_eq_zero ends)
  omega

/-- On a network that the words hold, the difficulty rule never ends with a fault. -/
theorem nextBits_ne_fault {headers : Headers} {last : Entry} {newTime : UInt32} {cause : Fault}
    (valid : params.validate = .ok ()) (fits : params.FitsWords) (grown : Grown last) :
    nextBits headers params (some last) newTime ≠ .error (.fault cause) := by
  rw [nextBits_of_valid valid]
  split
  next ends =>
    rw [bitsOfNewPeriod]
    rcases last.ancestor? (last.height - (params.blocks - 1)) with _ | first
    · exact nofun
    · dsimp only
      obtain ⟨spacing, order, -⟩ := Params.validate_eq_ok_iff.1 valid
      -- a chain that sees the end of a period is at least as high as the period is long
      have seen := (@period_fits params last grown).2 ends
      have word := grown.height_lt
      have works : params.noRetargeting = true ∨ params.targetTimespan.toNat < 2 ^ 61 := by
        rcases fits.timespan with keeps | short | long
        · exact .inl keeps
        · exact .inr short
        · omega
      obtain ⟨target, given⟩ :=
        @Params.exists_retarget params (last.bits headers) (last.time headers)
        (first.time headers) (by omega) works
      rw [given]
      exact nofun
  next inside =>
    rw [bitsWithinPeriod_of_fits]
    · exact nofun
    · intro easy
      have word := (last.time headers).toNat_lt
      rw [lateAfter]
      rcases fits.gap with uneasy | single | small
      · rw [easy] at uneasy
        cases uneasy
      · rw [single, Nat.mod_one] at inside
        exact absurd rfl inside
      · omega

/-- On a chain that ends a period, one that is too long for the words is a fault. -/
theorem exists_fault_of_timespan (valid : params.validate = .ok ())
    (retargets : params.noRetargeting = false) (long : 2 ^ 61 ≤ params.targetTimespan.toNat)
    (reached : params.blocks ≤ 2 ^ 32) :
    ∃ last newTime cause, Grown last ∧
      nextBits header params (some last) newTime = .error (.fault cause) := by
  have positive := (Params.interval_of_valid valid).2
  obtain ⟨last, grown, rooted, level⟩ :=
    exists_grown 0 (params.blocks - 1) (by rw [UInt32.toNat_zero]; omega)
  rw [UInt32.toNat_zero] at rooted level
  rw [Nat.zero_add] at level
  have ends : (last.height + 1) % params.blocks = 0 := by
    rw [level, Nat.sub_add_cancel positive, Nat.mod_self]
  rcases found : last.ancestor? (last.height - (params.blocks - 1)) with _ | first
  · rcases grown.linked.ancestor?_eq_none_iff.1 found with above | below <;> omega
  · obtain ⟨cause, fault⟩ :=
      @Params.retarget_of_long params (last.bits header) (last.time header)
      (first.time header) retargets long
    refine ⟨last, 0, cause, grown, ?_⟩
    rw [nextBits_of_valid valid, if_pos ends, bitsOfNewPeriod]
    simp only [found, fault]

/-- On a root as late as a time can be, a spacing that is too long for the words is a fault. -/
theorem exists_fault_of_gap (valid : params.validate = .ok ())
    (easy : params.allowMinDifficulty = true) (several : params.blocks ≠ 1)
    (large : 2 ^ 64 ≤ 2 ^ 32 - 1 + 2 * params.targetSpacing.toNat) :
    ∃ last newTime cause, Grown last ∧
      nextBits header params (some last) newTime = .error (.fault cause) := by
  have positive := (Params.interval_of_valid valid).2
  obtain ⟨last, planted, level, late⟩ :
      ∃ e, root? 0 (.plain { (plainHeader Wide.zero).base with time := 0xffffffff }) 0 = .ok e ∧
        e.height = 0 ∧ e.time header = 0xffffffff := ⟨_, rfl, rfl, rfl⟩
  have inside : ¬ (last.height + 1) % params.blocks = 0 := by
    rw [level, Nat.mod_eq_of_lt (by omega)]
    exact Nat.one_ne_zero
  refine ⟨last, 0, .wordOverflow, .root planted, ?_⟩
  rw [nextBits_of_valid valid, if_neg inside, bitsWithinPeriod_of_late easy]
  rw [lateAfter, late]
  exact large

/-- **Which networks never fault.** On a network that passes the check of its parameters:

* if the words hold what the difficulty rule comes to, then on every chain that growth can
  build, whatever headers replaced others since, there is a target for the next block or a
  part of the chain is missing, and never a fault;
* if they do not, then on some chain with the headers it was built from there is a fault;
* the height above an entry is at most `2 ^ 32`, and a period that ends begins at a height: the
  64-bit words of the rule have room for both. -/
theorem nextBits_faultless (valid : params.validate = .ok ()) :
    (params.FitsWords → ∀ (headers : Headers) (last : Entry) (newTime : UInt32) (cause : Fault),
      Grown last → nextBits headers params (some last) newTime ≠ .error (.fault cause)) ∧
    (¬params.FitsWords → ∃ last newTime cause, Grown last ∧
      nextBits header params (some last) newTime = .error (.fault cause)) ∧
    ∀ last, Grown last → last.height + 1 ≤ 2 ^ 32 ∧
      ((last.height + 1) % params.blocks = 0 → params.blocks - 1 ≤ last.height) := by
  refine ⟨?_, ?_, ?_⟩
  · intro fits headers last newTime cause grown
    exact nextBits_ne_fault valid fits grown
  · intro misfit
    by_cases timespan : params.noRetargeting = true ∨ params.targetTimespan.toNat < 2 ^ 61 ∨
        2 ^ 32 < params.blocks
    · have gap : ¬ (params.allowMinDifficulty = false ∨ params.blocks = 1 ∨
          2 ^ 32 - 1 + 2 * params.targetSpacing.toNat < 2 ^ 64) :=
            fun gap => misfit ⟨timespan, gap⟩
      simp only [not_or, Bool.not_eq_false, Nat.not_lt] at gap
      exact exists_fault_of_gap valid gap.1 gap.2.1 gap.2.2
    · simp only [not_or, Bool.not_eq_true, Nat.not_lt] at timespan
      exact exists_fault_of_timespan valid timespan.1 timespan.2.1 timespan.2.2
  · intro last grown
    exact period_fits grown

/-- The main network never faults. -/
theorem main_never_faults :
    Params.main.validate = .ok () ∧ Params.main.FitsWords ∧
      ∀ (headers : Headers) (last : Entry) (newTime : UInt32) (cause : Fault),
        Grown last → nextBits headers .main (some last) newTime ≠ .error (.fault cause) := by
  have valid : Params.main.validate = .ok () := by decide
  have fits : Params.main.FitsWords := by decide
  exact ⟨valid, fits, (nextBits_faultless valid).1 fits⟩

/-- Periods of one block, so long that they are read as minus four seconds. -/
def negativePeriod : Params :=
  { powLimit := .difficultyOne
    targetTimespan := 0xfffffffffffffffc
    targetSpacing := 0xfffffffffffffffc }

/-- Such a network passes the check, and there is no target on top of the first block. -/
theorem fault_on_negative_period :
    negativePeriod.validate = .ok () ∧ ∃ last : Entry,
      root? 0 (.plain { (plainHeader Wide.zero).base with bits := .difficultyOne }) 0 = .ok last ∧
      Grown last ∧
      nextBits header negativePeriod (some last) 0 = .error (.fault .emptyRange) := by
  obtain ⟨last, planted, fault⟩ : ∃ e : Entry,
      root? 0 (.plain { (plainHeader Wide.zero).base with bits := .difficultyOne }) 0 = .ok e ∧
        nextBits header negativePeriod (some e) 0 = .error (.fault .emptyRange) :=
    ⟨_, rfl, by decide +kernel⟩
  exact ⟨by decide, last, planted, .root planted, fault⟩

end Entry

end BlockRules
