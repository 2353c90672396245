import Mathlib
import BlockRules.Proofs.Chain.Retarget
import BlockRules.Proofs.Chain.Timestamps

/-!
# The required target

The rule for the target of the next block finds its way through a chain by shortcuts and by a walk
that stops early. This module says what it arrives at, in terms of the links to the entry before
alone.

* **the block that starts a period** — `Linked.getElem?_path_eq_some_iff`: an entry that is a
  number of links away is the one that many heights below, so that looking it up by its height finds
  it;
* **the last regular block** — `Regular` says of an entry that going back stops at it. The walk
  ends at the highest such entry (`lastRegularBits_highest`), and the root of a chain is one;
* `nextBits_inside`, `nextBits_at_end` — the rule by the place of the next block in its period,
  put together in `nextBits_spec`.
-/

namespace BlockRules.Entry

variable {headers : Headers} {params : Params} {limit : Target} {interval : Nat} {newTime : UInt32}
  {e a last previous : Entry}

/-! ## By links and by heights -/

theorem getElem?_path_zero (e : Entry) : e.path[0]? = some e := by
  cases e <;> rfl

/-- What is a number of links away is that many heights below. -/
theorem Linked.getElem?_path_eq_some_iff {n : Nat} (linked : Linked e) :
    e.path[n]? = some a ↔ LeadsTo e a ∧ a.height + n = e.height := by
  induction n generalizing e with
  | zero =>
    rw [getElem?_path_zero, Option.some.injEq]
    constructor
    · rintro rfl
      exact ⟨LeadsTo.refl _, rfl⟩
    · rintro ⟨leads, level⟩
      exact (LeadsTo.refl e).eq_of_height linked leads level.symm
  | succ n ih =>
    rcases before : e.previous? with _ | previous
    · rw [path_of_root before, List.getElem?_cons_succ, List.getElem?_nil]
      refine iff_of_false nofun ?_
      rintro ⟨leads, level⟩
      rw [leads.eq_of_root before] at level
      omega
    · obtain ⟨below, step⟩ := linked.previous before
      rw [path_of_previous before, List.getElem?_cons_succ, ih below]
      constructor
      · rintro ⟨leads, level⟩
        exact ⟨LeadsTo.head before leads, by omega⟩
      · rintro ⟨leads, level⟩
        rcases leadsTo_iff.1 leads with rfl | ⟨p, before', rest⟩
        · omega
        · rw [before] at before'
          obtain rfl := Option.some.inj before'
          exact ⟨rest, by omega⟩

/-! ## The last regular block -/

/-- The target of the entry is not one that only a late block may have: the entry is the root,
starts a period, or does not have the easiest target. -/
def Regular (headers : Headers) (limit : Target) (interval : Nat) (e : Entry) : Prop :=
  e.previous? = none ∨ interval ∣ e.height ∨ e.bits headers ≠ limit

/-- Going back stops at an entry if it is regular, and else at the entry before. -/
theorem lastRegularBits_of_regular (regular : e.Regular headers limit interval) :
    lastRegularBits headers limit interval e = e.bits headers := by
  rcases before : e.previous? with _ | previous
  · exact lastRegularBits_of_root before
  · rw [Regular, before, Nat.dvd_iff_mod_eq_zero] at regular
    rw [lastRegularBits_of_previous before, if_pos (regular.resolve_left nofun)]

/-- The walk back passes over entries that carry the limit inside a period. -/
theorem lastRegularBits_of_not_regular (irregular : ¬e.Regular headers limit interval)
    (before : e.previous? = some previous) :
    lastRegularBits headers limit interval e = lastRegularBits headers limit interval previous := by
  rw [Regular, Nat.dvd_iff_mod_eq_zero] at irregular
  rw [lastRegularBits_of_previous before, if_neg fun stops => irregular (.inr stops)]

/-- **Going back** ends at the highest regular entry. -/
theorem lastRegularBits_highest (grown : Grown e) :
    ∃ a, LeadsTo e a ∧ a.Regular headers limit interval ∧
      (∀ b, LeadsTo e b → b.Regular headers limit interval → b.height ≤ a.height) ∧
      lastRegularBits headers limit interval e = a.bits headers := by
  induction e, grown using Grown.upwards with
  | root e grown first =>
    exact ⟨e, LeadsTo.refl e, .inl first, fun b leads _ => grown.linked.height_le leads,
      lastRegularBits_of_root first⟩
  | above e previous grown before below ih =>
    by_cases regular : e.Regular headers limit interval
    · exact ⟨e, LeadsTo.refl e, regular, fun b leads _ => grown.linked.height_le leads,
        lastRegularBits_of_regular regular⟩
    · obtain ⟨a, leads, stops, highest, found⟩ := ih
      refine ⟨a, LeadsTo.head before leads, stops, ?_,
        (lastRegularBits_of_not_regular regular before).trans found⟩
      intro b leads' stops'
      rcases leadsTo_iff.1 leads' with rfl | ⟨p, before', rest⟩
      · exact absurd stops' regular
      · rw [before] at before'
        obtain rfl := Option.some.inj before'
        exact highest b rest stops'

/-! ## The rule, by the place in the period -/

/-- Inside a period the words hold what the rule comes to if they hold four periods. -/
theorem nextBits_inside (valid : params.validate = .ok ())
    (fits : params.targetTimespan.toNat < 2 ^ 61)
    (inside : ¬params.blocks ∣ last.height + 1) :
    nextBits headers params (some last) newTime =
      .ok (if params.allowMinDifficulty then
          if lateAfter headers params last < newTime.toNat then params.powLimit
          else lastRegularBits headers params.powLimit params.blocks last
        else last.bits headers) := by
  have small : lateAfter headers params last < 2 ^ 64 := by
    have order := (Params.validate_eq_ok_iff.1 valid).2.1
    have word := (last.time headers).toNat_lt
    rw [lateAfter]
    omega
  rw [Nat.dvd_iff_mod_eq_zero] at inside
  rw [nextBits_of_valid valid, if_neg inside, bitsWithinPeriod_of_fits fun _ => small]

/-- At the end of a period the history reaches down to its first block, or it does not. -/
theorem nextBits_at_end (valid : params.validate = .ok ())
    (fits : params.targetTimespan.toNat < 2 ^ 61)
    (grown : Grown last) (ends : params.blocks ∣ last.height + 1) :
    (last.height < last.origin.height + (params.blocks - 1) ∧
      nextBits headers params (some last) newTime =
        .error (.partialChain ⟨last.height - (params.blocks - 1), last.hash⟩)) ∨
    last.origin.height + (params.blocks - 1) ≤ last.height ∧
      ∃ first target, last.path[params.blocks - 1]? = some first ∧
        params.retarget (last.bits headers) (last.time headers) (first.time headers) =
          .ok target ∧
        nextBits headers params (some last) newTime = .ok target := by
  obtain ⟨spacing, order, -⟩ := Params.validate_eq_ok_iff.1 valid
  -- a height that a period ends at is at least its length
  have long := Nat.le_of_dvd (Nat.succ_pos _) ends
  rw [nextBits_of_valid valid, if_pos (Nat.mod_eq_zero_of_dvd ends), bitsOfNewPeriod]
  rcases found : last.ancestor? (last.height - (params.blocks - 1)) with _ | first
  · refine .inl ⟨?_, rfl⟩
    rcases grown.linked.ancestor?_eq_none_iff.1 found with above | below <;> omega
  · obtain ⟨leads, level⟩ := grown.linked.ancestor?_eq_some_iff.1 found
    have bottom := (grown.linked.of_leadsTo leads).origin_height_le
    rw [leads.origin_eq] at bottom
    obtain ⟨target, given⟩ :=
      @Params.exists_retarget params (last.bits headers) (last.time headers)
      (first.time headers) (spacing.trans_le order) (.inr fits)
    refine .inr ⟨by omega, first, target, ?_, given, by simp only [given]⟩
    exact grown.linked.getElem?_path_eq_some_iff.2 ⟨leads, by omega⟩

/-- **The required target.** Take a network that passes the check of its parameters and whose period
is below `2 ^ 61` seconds, and an entry that growth can build, whatever headers are in force.

* The history is refused as partial exactly if the next height is a multiple of the period in
  blocks, and the height one block less than a period below the entry is below the root.
* At any other such height the target is the retarget of the last one, by the time of the entry one
  block less than a period below.
* At the other heights it is the last target if no block may be easier, the limit if the block may
  be and comes more than two spacings late, and otherwise the target of the highest entry that is
  the root, or starts a period, or does not have the limit as its target. -/
theorem nextBits_spec (valid : params.validate = .ok ())
    (fits : params.targetTimespan.toNat < 2 ^ 61)
    (grown : Grown last) (headers : Headers) (newTime : UInt32) :
    params.interval = .ok params.blocks ∧
    (∀ cause, nextBits headers params (some last) newTime = .error (.partialChain cause) ↔
      (params.blocks ∣ last.height + 1 ∧
        (last.height : Int) - (params.blocks - 1) < last.origin.height) ∧
      cause = ⟨last.height - (params.blocks - 1), last.hash⟩) ∧
    (params.blocks ∣ last.height + 1 →
      (last.origin.height : Int) ≤ last.height - (params.blocks - 1) →
      ∃ first target, last.path[params.blocks - 1]? = some first ∧
        params.retarget (last.bits headers) (last.time headers) (first.time headers) =
          .ok target ∧
        nextBits headers params (some last) newTime = .ok target) ∧
    (¬params.blocks ∣ last.height + 1 →
      (params.allowMinDifficulty = false →
        nextBits headers params (some last) newTime = .ok (last.bits headers)) ∧
      (params.allowMinDifficulty = true →
        (last.time headers).toNat + 2 * params.targetSpacing.toNat < newTime.toNat →
        nextBits headers params (some last) newTime = .ok params.powLimit) ∧
      (params.allowMinDifficulty = true →
        newTime.toNat ≤ (last.time headers).toNat + 2 * params.targetSpacing.toNat →
        ∃ a, LeadsTo last a ∧
          (a.previous? = none ∨ params.blocks ∣ a.height ∨
            a.bits headers ≠ params.powLimit) ∧
          (∀ b, LeadsTo last b →
            b.previous? = none ∨ params.blocks ∣ b.height ∨
              b.bits headers ≠ params.powLimit →
            b.height ≤ a.height) ∧
          nextBits headers params (some last) newTime = .ok (a.bits headers))) := by
  obtain ⟨interval, positive⟩ := Params.interval_of_valid valid
  refine ⟨interval, fun cause => ?_, fun ends reaches => ?_, fun inside => ⟨?_, ?_, ?_⟩⟩
  -- only at the end of a period can the history be too short
  · by_cases ends : params.blocks ∣ last.height + 1
    · rcases @nextBits_at_end headers params newTime last valid fits grown ends with
        ⟨short, refused⟩ | ⟨reaches, -, target, -, -, given⟩
      · have short' : (last.height : Int) - (params.blocks - 1) < last.origin.height := by omega
        rw [refused, and_iff_right ⟨ends, short'⟩, Except.error.injEq,
          RetargetError.partialChain.injEq]
        exact eq_comm
      · rw [given]
        exact iff_of_false nofun fun refused => by omega
    · rw [nextBits_inside valid fits ends]
      exact iff_of_false nofun fun refused => ends refused.1.1
  · rcases @nextBits_at_end headers params newTime last valid fits grown ends with
      ⟨short, -⟩ | ⟨-, required⟩
    · omega
    · exact required
  · intro uneasy
    simp [nextBits_inside valid fits inside, uneasy]
  · intro easy late
    rw [nextBits_inside valid fits inside, if_pos easy]
    exact congrArg Except.ok (if_pos late)
  · intro easy timely
    obtain ⟨a, leads, stops, highest, found⟩ := @lastRegularBits_highest headers params.powLimit
      params.blocks last grown
    refine ⟨a, leads, stops, highest, ?_⟩
    rw [nextBits_inside valid fits inside, if_pos easy, ← found]
    exact congrArg Except.ok (if_neg (Nat.not_lt.2 timely))

/-- On a root that is harder than it must be, a block that came late: the next block goes back to
the root, unless it comes late too. -/
theorem easy_block_passed_over :
    Params.regtest.validate = .ok () ∧ Params.regtest.targetTimespan.toNat < 2 ^ 61 ∧
      ∃ e : Entry, Grown e ∧ e.bits header = Params.regtest.powLimit ∧
        nextBits header .regtest (some e) 1200 = .ok .difficultyOne ∧
        nextBits header .regtest (some e) 1201 = .ok Params.regtest.powLimit := by
  have valid : Params.regtest.validate = .ok () := by decide
  have fits : Params.regtest.targetTimespan.toNat < 2 ^ 61 := by decide
  have blocks : Params.regtest.blocks = 2016 := by decide
  obtain ⟨root, -, grown, first, bottom, headerRoot⟩ :=
    @exists_root (.plain { (plainHeader Wide.zero).base with bits := .difficultyOne }) rfl 0 0
  have bottom : root.height = 0 := bottom
  obtain ⟨e, -, grown', before, headerEasy⟩ :=
    @Grown.exists_extend root (plainHeader root.hash) grown rfl (by omega) 1
  have level : e.height = 1 := by rw [(grown'.above before).2.2.1, bottom]
  have inside : ¬Params.regtest.blocks ∣ e.height + 1 := by
    rw [blocks, level]
    decide
  have easy : e.bits header = Params.regtest.powLimit := by
    rw [bits, headerEasy]
    rfl
  have time : e.time header = 0 := by
    rw [Entry.time, headerEasy]
    rfl
  obtain ⟨-, -, -, timely⟩ := nextBits_spec valid fits grown' header 1200
  obtain ⟨-, -, -, late⟩ := nextBits_spec valid fits grown' header 1201
  obtain ⟨a, leads, stops, -, given⟩ := (timely inside).2.2 rfl (by rw [time]; decide)
  refine ⟨valid, fits, e, grown', easy, ?_, (late inside).2.1 rfl (by rw [time]; decide)⟩
  rcases leadsTo_iff.1 leads with rfl | ⟨p, before', rest⟩
  · -- nothing about the late block stops the walk
    rw [before, blocks, level] at stops
    simp [easy] at stops
  · rw [before] at before'
    obtain rfl := Option.some.inj before'
    rw [given, rest.eq_of_root first, bits, headerRoot]
    rfl

end BlockRules.Entry
