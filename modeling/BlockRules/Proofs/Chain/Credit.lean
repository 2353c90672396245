import Mathlib
import BlockRules.Proofs.Chain.Reciprocal
import BlockRules.Proofs.Chain.Timestamps

/-!
# What the blocks of a chain are credited with

The work of a chain is a number that its entries carry along, and the rule for choosing between
branches compares nothing else. This module says what the number is made of, for whatever was
grown: the root may be at any height, the headers may be plain or proven, and nothing has to be
valid.

* `Target.credit` — what a target is worth by its value. Values that no hash can meet, below one
  or from `2 ^ 256` on, are worth nothing, and every other one is worth something
  (`Target.credit_eq_zero_iff`);
* `Entry.pathAbove` — the entries of a chain that are higher than one of its entries;
* `Entry.Grown.work_eq_add_pathAbove` — from an entry of the chain on, the work goes up by what
  the entries above are credited with, by induction up the chain.
-/

namespace BlockRules

namespace Target

/-- What a target of a value is worth: the number of hashes divided by the number of those up to
the value, if some hash meets it and not every number does. -/
def credit (value : Int) : Nat :=
  if 0 < value ∧ value < 2 ^ 256 then 2 ^ 256 / (value.toNat + 1) else 0

/-- The work of a target depends only on the integer that it encodes. -/
theorem blockProof_eq_credit (t : Target) : t.blockProof = credit t.toInt := by
  rw [credit]
  split
  next bounds =>
    have same : t.toInt.natAbs = t.toInt.toNat := by omega
    rw [blockProof_of_inRange (inRange_iff.2 bounds), same]
  next bounds => exact if_neg fun range => bounds (inRange_iff.1 range)

/-- Only what no hash can meet is worth nothing. -/
theorem credit_eq_zero_iff {value : Int} : credit value = 0 ↔
    ¬(0 < value ∧ value < 2 ^ 256) := by
  rw [credit]
  split
  next bounds =>
    have some : 0 < 2 ^ 256 / (value.toNat + 1) := Nat.div_pos (by omega) (Nat.succ_pos _)
    exact iff_of_false some.ne' (not_not.2 bounds)
  next bounds => exact iff_of_true rfl bounds

end Target

namespace Entry

variable {e a previous : Entry}

/-- What the header of an entry is credited with. -/
def credit (e : Entry) : Nat := Target.credit (e.bits header).toInt

theorem blockProof_header (e : Entry) : e.header.base.bits.blockProof = e.credit :=
  Target.blockProof_eq_credit _

/-- The work of a chain is what its headers are credited with, taken together. -/
theorem Grown.work_eq_sum_credit (grown : Grown e) : e.work = (e.path.map credit).sum := by
  rw [grown.work_eq_sum, history, List.map_map]
  exact congrArg List.sum (List.map_congr_left fun x _ => x.blockProof_header)

/-- The entries of a chain that are higher than a given one. -/
def pathAbove (e a : Entry) : List Entry := e.path.filter fun x => a.height < x.height

/-- Nothing of a chain is higher than its last entry. -/
theorem pathAbove_self (linked : Linked e) : e.pathAbove e = [] := by
  refine List.filter_eq_nil_iff.2 fun x mem => ?_
  have lower := linked.height_le (mem_path_iff.1 mem)
  rw [decide_eq_true_iff]
  omega

/-- One more entry on a chain is one more above all entries that the chain already has. -/
theorem pathAbove_of_previous (linked : Linked previous) (before : e.previous? = some previous)
    (level : e.height = previous.height + 1) (leads : LeadsTo previous a) :
    e.pathAbove a = e :: previous.pathAbove a := by
  have lower := linked.height_le leads
  have higher : a.height < e.height := by omega
  rw [pathAbove, path_of_previous before, List.filter_cons,
    if_pos (decide_eq_true higher), pathAbove]

/-- **Up the chain**, the work increases by what each entry is credited with. -/
theorem Grown.work_eq_add_pathAbove (grown : Grown e) (leads : LeadsTo e a) :
    e.work = a.work + ((e.pathAbove a).map credit).sum := by
  induction e, grown using Grown.upwards with
  | root e grown first =>
    obtain rfl := leads.eq_of_root first
    rw [pathAbove_self grown.linked]
    rfl
  | above e previous grown before below ih =>
    rcases leadsTo_iff.1 leads with rfl | ⟨previous', before', leads⟩
    · rw [pathAbove_self grown.linked]
      rfl
    · rw [before] at before'
      obtain rfl := Option.some.inj before'
      obtain ⟨-, -, level, work⟩ := grown.above before
      rw [pathAbove_of_previous below.linked before level leads, List.map_cons, List.sum_cons,
        work, ih leads, blockProof_header]
      omega

/-- **Accumulated work.** Take any chain that was grown, whatever headers it is made of. Its work is
the sum, over the entries from the root up, of `2 ^ 256 / (T + 1)` where the value `T` of the target
is strictly between zero and `2 ^ 256`, and of nothing where it is not. So no entry of the chain has
more work than the last one, and one has as much exactly if the target of every entry above it is
out of that range. -/
theorem work_accumulates (grown : Grown e) :
    e.work = (e.path.map fun x =>
      let T := (x.bits header).toInt
      if 0 < T ∧ T < 2 ^ 256 then 2 ^ 256 / (T.toNat + 1) else 0).sum ∧
    ∀ a ∈ e.path, a.work ≤ e.work ∧
      (a.work = e.work ↔ ∀ x ∈ e.path, a.height < x.height →
        ¬(0 < (x.bits header).toInt ∧ (x.bits header).toInt < 2 ^ 256)) := by
  refine ⟨grown.work_eq_sum_credit, fun a mem => ?_⟩
  have split := grown.work_eq_add_pathAbove (mem_path_iff.1 mem)
  refine ⟨split ▸ Nat.le_add_right _ _, ?_⟩
  calc a.work = e.work
    _ ↔ ((e.pathAbove a).map credit).sum = 0 := by omega
    _ ↔ ∀ x ∈ e.pathAbove a, x.credit = 0 := by rw [List.sum_eq_zero_iff, List.forall_mem_map]
    _ ↔ ∀ x ∈ e.path, a.height < x.height →
        ¬(0 < (x.bits header).toInt ∧ (x.bits header).toInt < 2 ^ 256) := by
      simp only [pathAbove, List.mem_filter, decide_eq_true_iff, and_imp, credit,
        Target.credit_eq_zero_iff]

/-- A proven header on top of the entry with a hash; its target is negative. -/
def unreachableHeader (previous : UInt256) : Header :=
  .proven
    { version := 1, previous, merkleRoot := Wide.zero, time := 0, bits := ⟨0x04923456⟩,
      nonce := 0 }
    { merkleProof := [], signature := [], coinstake := Network.proofOfStake.transaction }

/-- From a root at height seven up: a negative target adds nothing, the one on top of it adds
two. -/
theorem work_of_unreachable :
    ∃ root stale tip : Entry, root? 0 (plainHeader Wide.zero) 7 = .ok root ∧
      root.extend? 1 (unreachableHeader root.hash) = .ok stale ∧
      stale.extend? 2 (plainHeader stale.hash) = .ok tip ∧
      root.work = stale.work ∧ root.work < tip.work ∧ tip.work = 4 := by
  -- three entries, the one in the middle with a target below zero
  obtain ⟨root, planted, grownRoot, first, level, headerRoot⟩ :=
    @exists_root (plainHeader Wide.zero) rfl 0 7
  have level : root.height = 7 := level
  obtain ⟨stale, grew, grownStale, before, headerStale⟩ :=
    @Grown.exists_extend root (unreachableHeader root.hash) grownRoot rfl (by omega) 1
  have higher := (grownStale.above before).2.2.1
  obtain ⟨tip, grew', grownTip, before', headerTip⟩ :=
    @Grown.exists_extend stale (plainHeader stale.hash) grownStale rfl (by omega) 2
  have highest := (grownTip.above before').2.2.1
  have pathStale : stale.path = [stale, root] := by rw [path_of_previous before, path_of_root first]
  have pathTip : tip.path = [tip, stale, root] := by rw [path_of_previous before', pathStale]
  have easy : (⟨0x207fffff⟩ : Target).toInt = 0x7fffff * 2 ^ 232 := by decide +kernel
  have negative : (⟨0x04923456⟩ : Target).toInt = -0x12345600 := by decide +kernel
  have valueRoot : (root.bits header).toInt = 0x7fffff * 2 ^ 232 := by
    rw [bits, headerRoot]
    exact easy
  have valueStale : (stale.bits header).toInt = -0x12345600 := by
    rw [bits, headerStale]
    exact negative
  have valueTip : (tip.bits header).toInt = 0x7fffff * 2 ^ 232 := by
    rw [bits, headerTip]
    exact easy
  obtain ⟨-, equal⟩ := work_accumulates grownStale
  obtain ⟨total, more⟩ := work_accumulates grownTip
  refine ⟨root, stale, tip, planted, grew, grew', ?_, ?_, ?_⟩
  -- nothing above the root is worth anything
  · refine (equal root (by simp [pathStale])).2.2 fun x mem above => ?_
    rw [pathStale] at mem
    rcases List.mem_pair.1 mem with rfl | rfl
    · rw [valueStale]
      decide
    · exact absurd above (lt_irrefl _)
  -- the tip is, so the work cannot be the same
  · obtain ⟨least, same⟩ := more root (by simp [pathTip])
    refine lt_of_le_of_ne least fun alike => ?_
    refine same.1 alike tip (by simp [pathTip]) (by omega) ?_
    rw [valueTip]
    norm_num
  · rw [total, pathTip]
    simp only [List.map_cons, List.map_nil, List.sum_cons, List.sum_nil, valueRoot,
      valueStale, valueTip]
    decide +kernel

end Entry

end BlockRules
