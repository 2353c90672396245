import Mathlib
import BlockRules.Chain.Validate
import BlockRules.Proofs.Chain.Growth
import BlockRules.Target.Lemmas

/-!
# The work of a valid chain

Every block of a valid proof-of-work chain that starts at height zero meets a target that is
not easier than the easiest one of the network. So such a chain has at least the work of as
many blocks of the easiest target (`work_of_valid`).

* **one step** — if the targets of a chain are within the limit, so is the one that the next
  block must state, whichever way it is derived (`nextBits_le`);
* **the run** — a valid block states the target it must state and meets it
  (`isValid_iff`, `bitsFit_iff`), so the bound goes up the chain block by block
  (`Mined.of_below`) and the works add up (`work_of_mined`).
-/

namespace BlockRules

variable {params : Params} {headers : Headers}

/-- A computation in two steps succeeds if both do. -/
theorem bind_eq_ok {ε α β : Type} {x : Except ε α} {f : α → Except ε β} {b : β} :
    x >>= f = .ok b ↔ ∃ a, x = .ok a ∧ f a = .ok b := by
  rcases x with cause | a
  · simp [bind, Except.bind]
  · simp [bind, Except.bind]

/-! ## The next target -/

theorem clampTo_eq_ok {low high v x : Int} (given : clampTo low high v = .ok x) :
    low ≤ x ∧ x ≤ high := by
  rw [clampTo] at given
  split at given
  next => cases given
  next => cases given; omega

theorem signed64_eq_ok {n x : Int} (given : signed64 n = .ok x) :
    x = n ∧ -2 ^ 63 ≤ n ∧ n < 2 ^ 63 := by
  rw [signed64] at given
  split at given
  next => cases given; omega
  next => cases given

/-- A retarget keeps the target, or gives the limit, or the compact form of a number that is
within the limit and small enough for the encoder. -/
theorem Params.retarget_inv {bits target : Target} {lastTime firstTime : UInt32}
    (given : params.retarget bits lastTime firstTime = .ok target) :
    target = bits ∨ target = params.powLimit ∨
      ∃ scaled, scaled ≤ params.powLimit.toInt ∧ Target.FitsWords scaled ∧
        Target.ofInt? scaled = .ok target := by
  rw [retarget] at given
  split at given
  next => exact .inl (Except.ok.inj given).symm
  next =>
    right
    obtain ⟨longest, long, given⟩ := bind_eq_ok.1 given
    obtain ⟨actual, clamped, given⟩ := bind_eq_ok.1 given
    -- the time is between bounds that are words, so it fits one
    have word : actual.natAbs < 2 ^ 64 := by
      obtain ⟨rfl, low, high⟩ := signed64_eq_ok long
      obtain ⟨least, most⟩ := clampTo_eq_ok clamped
      have quarter : (params.signedTimespan.tdiv 4).natAbs ≤ params.signedTimespan.natAbs := by
        rw [Int.natAbs_tdiv]
        exact Nat.div_le_self _ _
      omega
    dsimp only at given
    split at given
    next => cases given
    next =>
      split at given
      next => exact .inl (Except.ok.inj given).symm
      next capped =>
        split at given
        next encoded =>
          obtain rfl := Except.ok.inj given
          exact .inr ⟨_, Int.le_of_not_gt capped, bits.fitsWords_mul_tdiv word _, encoded⟩
        next => exact .inl (Except.ok.inj given).symm
        next => cases given

/-- A retarget stays within the limit. -/
theorem Params.retarget_le {bits target : Target} {lastTime firstTime : UInt32}
    (positive : 0 < params.powLimit.toInt) (within : bits.toInt ≤ params.powLimit.toInt)
    (given : params.retarget bits lastTime firstTime = .ok target) :
    target.toInt ≤ params.powLimit.toInt := by
  rcases retarget_inv given with rfl | rfl | ⟨scaled, below, fits, encoded⟩
  · exact within
  · exact le_rfl
  · exact (Target.toInt_le_of_ofInt? fits encoded).trans (max_le below positive.le)

namespace Entry

variable {last : Entry} {interval : Nat} {newTime : UInt32} {target : Target}

/-- The target that a network goes back to after easy blocks is one of the chain. -/
theorem lastRegularBits_mem (limit : Target) (interval : Nat) (e : Entry) :
    ∃ x ∈ e.path, lastRegularBits headers limit interval e = x.bits headers := by
  induction e with
  | root data => exact ⟨_, List.mem_singleton_self _, rfl⟩
  | link data previous ih =>
    obtain ⟨x, mem, same⟩ := ih
    rw [lastRegularBits]
    split
    · exact ⟨_, List.mem_cons_self, rfl⟩
    · exact ⟨x, List.mem_cons_of_mem _ mem, same⟩
  | jump data previous skip ih _ =>
    obtain ⟨x, mem, same⟩ := ih
    rw [lastRegularBits]
    split
    · exact ⟨_, List.mem_cons_self, rfl⟩
    · exact ⟨x, List.mem_cons_of_mem _ mem, same⟩

/-- Within a period the target is the limit or one of the chain. -/
theorem bitsWithinPeriod_inv
    (given : bitsWithinPeriod headers params interval last newTime = .ok target) :
    target = params.powLimit ∨ ∃ x ∈ last.path, target = x.bits headers := by
  rw [bitsWithinPeriod] at given
  split at given
  next easy =>
    obtain ⟨gap, -, given⟩ := bind_eq_ok.1 given
    obtain ⟨late, -, given⟩ := bind_eq_ok.1 given
    split at given
    next => exact .inl (Except.ok.inj given).symm
    next =>
      obtain ⟨x, mem, same⟩ := @lastRegularBits_mem headers params.powLimit interval last
      exact .inr ⟨x, mem, (Except.ok.inj given).symm.trans same⟩
  next => exact .inr ⟨last, mem_path_iff.2 (LeadsTo.refl last), (Except.ok.inj given).symm⟩

/-- A new period begins with the retarget of the last target. -/
theorem bitsOfNewPeriod_inv
    (given : bitsOfNewPeriod headers params interval last = .ok target) :
    ∃ firstTime, params.retarget (last.bits headers) (last.time headers) firstTime =
      .ok target := by
  rw [bitsOfNewPeriod] at given
  split at given
  next => cases given
  next first _ =>
    split at given
    next retargeted =>
      obtain rfl := Except.ok.inj given
      exact ⟨first.time headers, retargeted⟩
    next => cases given

/-- If the targets of a chain are within the limit, so is the one of the next block. -/
theorem nextBits_le (positive : 0 < params.powLimit.toInt)
    (within : ∀ x ∈ last.path, (x.bits headers).toInt ≤ params.powLimit.toInt)
    (given : nextBits headers params (some last) newTime = .ok target) :
    target.toInt ≤ params.powLimit.toInt := by
  have own := within last (mem_path_iff.2 (LeadsTo.refl last))
  rw [nextBits] at given
  split at given
  next => cases given
  next => cases given
  next =>
    split at given
    next =>
      obtain ⟨firstTime, retargeted⟩ := bitsOfNewPeriod_inv given
      exact Params.retarget_le positive own retargeted
    next =>
      split at given
      next inside =>
        obtain rfl := Except.ok.inj given
        rcases bitsWithinPeriod_inv inside with rfl | ⟨x, mem, rfl⟩
        · exact le_rfl
        · exact within x mem
      next => cases given

/-! ## What validity comes to -/

variable {e : Entry}

/-- With its history in reach, a block fits if it states the required target. -/
theorem bitsFit_iff (history : e.previous? = none → e.height = 0) :
    e.bitsFit headers params = .ok true ↔
      e.requiredBits headers params = .ok (e.bits headers) := by
  have reach : ¬ (e.previous?.isNone && e.height != 0) = true := by
    simpa using history
  rw [bitsFit, if_neg reach]
  rcases e.requiredBits headers params with (_ | _) | required
  · simp
  · simp
  · simp

/-- A plain block that growth put in its place has the links and the hash it should have. What
is left is the first block of the network, the proof of work and the target. -/
theorem isValid_iff (grown : Grown e) (plain : e.header.isProven = false) :
    e.isValid header params = .ok true ↔ e.genesisFits params = true ∧
      (e.bits header).isMetBy e.hash = true ∧ e.bitsFit header params = .ok true := by
  have height : e.heightFits = true := by
    rw [heightFits]
    split
    next previous before => simp [(grown.above before).2.2.1]
    next => rfl
  have parent : e.parentFits e.header = true := by
    rw [parentFits]
    split
    next previous before => simp [(grown.above before).2.1]
    next first => exact (grown.at_root first).1
  have named : (e.header.hash == e.hash) = true := by
    rw [grown.hash_eq, beq_self_eq_true]
  rw [isValid]
  simp only [height, parent, named, plain, Bool.and_true, Bool.false_eq_true, if_false]
  rw [bind_eq_ok]
  refine ⟨?_, ?_⟩
  · rintro ⟨fit, found, all⟩
    have all := Except.ok.inj all
    rw [Bool.and_eq_true, Bool.and_eq_true] at all
    obtain ⟨⟨first, met⟩, rfl⟩ := all
    exact ⟨first, met, found⟩
  · rintro ⟨first, met, found⟩
    refine ⟨true, found, congrArg Except.ok ?_⟩
    rw [first, Bool.true_and, Bool.and_true]
    exact met

/-! ## Up the chain -/

/-- The hash of an entry meets its target, which is one that the network allows. -/
structure Mined (params : Params) (e : Entry) : Prop where
  met : (e.hash.toNat : Int) ≤ (e.bits header).toInt
  positive : 0 < (e.bits header).toInt
  within : (e.bits header).toInt ≤ params.powLimit.toInt

/-- The proof of such an entry is worth at least that of the easiest target. -/
theorem Mined.blockProof_le (mined : Mined params e) :
    params.powLimit.blockProof ≤ e.header.base.bits.blockProof :=
  Target.blockProof_antitone mined.positive mined.within

/-- A valid block on top of entries that were mined was mined. -/
theorem Mined.of_below (grown : Grown e) (plain : e.header.isProven = false)
    (valid : e.isValid header params = .ok true) (history : e.previous? = none → e.height = 0)
    (below : ∀ previous, e.previous? = some previous →
      ∀ x ∈ previous.path, Mined params x) :
    Mined params e := by
  obtain ⟨-, meets, fits⟩ := (isValid_iff grown plain).1 valid
  obtain ⟨positive, -, met⟩ := Target.isMetBy_iff.1 meets
  have required := (bitsFit_iff history).1 fits
  refine ⟨met, positive, ?_⟩
  rw [requiredBits] at required
  split at required
  next => rw [Except.ok.inj required]
  next above =>
    rcases before : e.previous? with _ | previous
    · exact absurd (history before) above
    · rw [before] at required
      have last := below previous before previous (mem_path_iff.2 (LeadsTo.refl previous))
      exact nextBits_le (last.positive.trans_le last.within)
        (fun x mem => (below previous before x mem).within) required

/-- The valid blocks of a chain that starts at height zero were mined. -/
theorem mined_of_valid (grown : Grown e) (rooted : e.origin.height = 0)
    (plain : ∀ x ∈ e.path, x.header.isProven = false)
    (valid : ∀ x ∈ e.path, x.isValid header params = .ok true) :
    ∀ x ∈ e.path, Mined params x := by
  induction e, grown using Grown.upwards with
  | root e grown first =>
    rw [path_of_root first, List.forall_mem_singleton] at plain valid ⊢
    rw [origin_eq_self first] at rooted
    refine .of_below grown plain valid (fun _ => rooted) ?_
    intro previous before
    rw [first] at before
    cases before
  | above e previous grown before below ih =>
    rw [path_of_previous before, List.forall_mem_cons] at plain valid ⊢
    rw [← origin_of_previous before] at rooted
    have under := ih rooted plain.2 valid.2
    refine ⟨.of_below grown plain.1 valid.1 ?_ ?_, under⟩
    · intro first
      rw [first] at before
      cases before
    · intro previous' before'
      rw [before] at before'
      obtain rfl := Option.some.inj before'
      exact under

/-- Mined blocks from height zero up add up to at least as many of the easiest target. -/
theorem work_of_mined (grown : Grown e) (rooted : e.origin.height = 0)
    (mined : ∀ x ∈ e.path, Mined params x) :
    (e.height + 1) * params.powLimit.blockProof ≤ e.work := by
  induction e, grown using Grown.upwards with
  | root e grown first =>
    rw [path_of_root first, List.forall_mem_singleton] at mined
    rw [origin_eq_self first] at rooted
    rw [(grown.at_root first).2, rooted, Nat.zero_add, Nat.one_mul]
    exact mined.blockProof_le
  | above e previous grown before below ih =>
    rw [path_of_previous before, List.forall_mem_cons] at mined
    rw [← origin_of_previous before] at rooted
    obtain ⟨-, -, height, work⟩ := grown.above before
    rw [height, work, Nat.succ_mul]
    exact Nat.add_le_add (ih rooted mined.2) mined.1.blockProof_le

/-- **Minimum work.** On a chain of plain headers that starts at height zero and is valid block by
block, every hash meets its target and every target is positive and within the limit of the
network; the work is at least that of as many blocks of the easiest target. This takes no check
of the parameters: what makes the difficulty rule fail makes a block invalid. -/
theorem work_of_valid (grown : Grown e) (rooted : e.origin.height = 0)
    (plain : ∀ x ∈ e.path, x.header.isProven = false)
    (valid : ∀ x ∈ e.path, x.isValid header params = .ok true) :
    (∀ x ∈ e.path, (x.hash.toNat : Int) ≤ (x.bits header).toInt ∧
      0 < (x.bits header).toInt ∧ (x.bits header).toInt ≤ params.powLimit.toInt) ∧
    (e.height + 1) * params.powLimit.blockProof ≤ e.work := by
  have mined := mined_of_valid grown rooted plain valid
  refine ⟨?_, work_of_mined grown rooted mined⟩
  intro x mem
  exact ⟨(mined x mem).met, (mined x mem).positive, (mined x mem).within⟩

/-- A network that retargets at every block. -/
def hasty : Params := { powLimit := ⟨0x207fffff⟩, targetTimespan := 600, targetSpacing := 600 }

/-- A header on top of the plain one that names nothing, made as quickly as a clock can tell. -/
def hastyHeader : Header :=
  .plain
    { version := 1, previous := trunkHash, merkleRoot := Wide.zero, time := 0,
      bits := ⟨0x201fffff⟩
      nonce := 20 }

/-- The name of this header, worked out beforehand. -/
def hastyHash : UInt256 :=
  Wide.ofNat 0x06fecf08bf4058b76bd20b8e02b49e5bf72e959887c67b1f3ffe16c581d368cc

theorem hash_hasty : hastyHeader.hash = hastyHash := by decide +kernel

/-- After a block of the easiest target the next one is four times as hard; the chain of both has
a work of ten, where two of the easiest have four. -/
theorem work_of_hasty :
    ∃ trunk tip : Entry, root? 0 (plainHeader Wide.zero) 0 = .ok trunk ∧
      trunk.extend? 1 hastyHeader = .ok tip ∧ tip.path = [tip, trunk] ∧
      (∀ x ∈ tip.path, x.header.isProven = false) ∧
      (∀ x ∈ tip.path, x.isValid header hasty = .ok true) ∧
      (∀ x ∈ tip.path, (x.hash.toNat : Int) ≤ (x.bits header).toInt ∧
        0 < (x.bits header).toInt ∧ (x.bits header).toInt ≤ hasty.powLimit.toInt) ∧
      (tip.height + 1) * hasty.powLimit.blockProof ≤ tip.work ∧
      (tip.height + 1) * hasty.powLimit.blockProof = 4 ∧ tip.work = 10 := by
  obtain ⟨trunk, planted, grownTrunk, rootTrunk, levelTrunk, headerTrunk⟩ :=
    @exists_root (plainHeader Wide.zero) rfl 0 0
  have levelTrunk : trunk.height = 0 := levelTrunk
  have hashTrunk : trunk.hash = trunkHash := by rw [grownTrunk.hash_eq, headerTrunk, hash_trunk]
  obtain ⟨tip, grew, grown, before, headerTip⟩ :=
    @Grown.exists_extend trunk hastyHeader grownTrunk hashTrunk.symm (by omega) 1
  obtain ⟨-, -, level, work⟩ := grown.above before
  have hashTip : tip.hash = hastyHash := by rw [grown.hash_eq, headerTip, hash_hasty]
  have path : tip.path = [tip, trunk] := by rw [path_of_previous before, path_of_root rootTrunk]
  have rooted : tip.origin.height = 0 := by
    rw [← origin_of_previous before, origin_eq_self rootTrunk, levelTrunk]
  have plain : ∀ x ∈ tip.path, x.header.isProven = false := by
    simp [path, headerTrunk, headerTip, plainHeader, hastyHeader, Header.isProven]
  -- the root: its target is the limit, and its hash meets it
  have validTrunk : trunk.isValid header hasty = .ok true := by
    refine (isValid_iff grownTrunk (by rw [headerTrunk]; rfl)).2 ⟨?_, ?_, ?_⟩
    · simp [genesisFits, rootTrunk, hasty]
    · rw [bits, headerTrunk, hashTrunk]
      decide
    · rw [bitsFit_iff fun _ => levelTrunk, requiredBits, if_pos levelTrunk, bits, headerTrunk]
      rfl
  -- the tip: no time has passed, so a quarter of the limit is required
  have validTip : tip.isValid header hasty = .ok true := by
    refine (isValid_iff grown (by rw [headerTip]; rfl)).2 ⟨?_, ?_, ?_⟩
    · simp [genesisFits, level]
    · rw [bits, headerTip, hashTip]
      decide
    · have next : nextBits header hasty (some trunk) 0 = .ok ⟨0x201fffff⟩ := by
        rw [(root?_inv planted).2]
        decide +kernel
      rw [bitsFit_iff (by simp [before]), requiredBits, if_neg (by omega), before, bits, time,
        headerTip]
      exact next
  have valid : ∀ x ∈ tip.path, x.isValid header hasty = .ok true := by
    simp [path, validTrunk, validTip]
  obtain ⟨mined, least⟩ := work_of_valid grown rooted plain valid
  refine ⟨trunk, tip, planted, grew, path, plain, valid, mined, least, ?_, ?_⟩
  · rw [level, levelTrunk]
    decide +kernel
  · rw [work, (grownTrunk.at_root rootTrunk).2, headerTrunk, headerTip]
    decide +kernel

end Entry

end BlockRules
