import Mathlib
import BlockRules.Chain.Retarget
import BlockRules.Proofs.Chain.Growth

/-!
# The median time

The median of the last eleven times is the one at the middle of the sorted list. What it is,
however, is said without sorting, by counting the times on either side of a bound:

* **order** — in a list in which a condition never comes back once it has failed, the condition
  holds up to the number of times that it holds (`getElem_iff_lt_countP`);
* **the median** — a bound is not above the median exactly if at most half of the times lie below
  it, and not below the median exactly if fewer than half lie above it (`Entry.le_medianTime_iff`,
  `Entry.medianTime_le_iff`);
* **the next entry** — it adds its own time and may drop one, so on the side of the old median
  where its time does not lie there are no more times than before. This is all that the two
  comparisons with the old median need, wherever the dropped time was (`Entry.medianTime_step`).
-/

namespace BlockRules

/-! ## Counting in order -/

/-- If a condition does not come back once it has failed, it holds at the places below the number of
places at which it holds. -/
theorem getElem_iff_lt_countP {α : Type} {p : α → Bool} {xs : List α}
    (front : xs.Pairwise fun a b => p b = true → p a = true) {k : Nat} (inside : k < xs.length) :
    p xs[k] = true ↔ k < xs.countP p := by
  induction xs generalizing k with
  | nil => cases inside
  | cons x xs ih =>
    rw [List.pairwise_cons] at front
    by_cases first : p x = true
    · rw [List.countP_cons_of_pos first]
      cases k with
      | zero => exact iff_of_true first (Nat.succ_pos _)
      | succ k =>
        rw [List.getElem_cons_succ, ih front.2, Nat.add_lt_add_iff_right]
    · have none : (x :: xs).countP p = 0 := by
        rw [List.countP_eq_zero, List.forall_mem_cons]
        exact ⟨first, fun y mem held => first (front.1 y mem held)⟩
      have missing : ¬ p (x :: xs)[k] = true :=
        List.countP_eq_zero.1 none _ (List.getElem_mem inside)
      rw [none]
      exact iff_of_false missing (Nat.not_lt_zero k)

variable {v : UInt32} {times : List UInt32}

/-- In a sorted list, a bound is not above a time if no more times lie below the bound than before
that time. -/
theorem le_getElem_iff (sorted : times.Pairwise (· ≤ ·)) {k : Nat} (inside : k < times.length) :
    v ≤ times[k] ↔ times.countP (· < v) ≤ k := by
  have below : times[k] < v ↔ k < times.countP (· < v) := by
    rw [← getElem_iff_lt_countP _ inside, decide_eq_true_iff]
    refine sorted.imp fun le => ?_
    simp only [decide_eq_true_eq]
    exact UInt32.lt_of_le_of_lt le
  rw [← UInt32.not_lt, below, Nat.not_lt]

/-- It is not below a time if no more times lie above the bound than behind that time. -/
theorem getElem_le_iff (sorted : times.Pairwise (· ≤ ·)) {k : Nat} (inside : k < times.length) :
    times[k] ≤ v ↔ k + times.countP (v < ·) < times.length := by
  have upTo : times[k] ≤ v ↔ k < times.countP (· ≤ v) := by
    rw [← getElem_iff_lt_countP _ inside, decide_eq_true_iff]
    refine sorted.imp fun le => ?_
    simp only [decide_eq_true_eq]
    exact UInt32.le_trans le
  have both := List.length_eq_countP_add_countP (· ≤ v) (l := times)
  simp only [decide_eq_true_eq, UInt32.not_le] at both
  rw [upTo]
  omega

namespace Entry

variable {headers : Headers} {e previous : Entry}

/-! ## The median -/

/-- The times of the last eleven entries, or of as many as there are. -/
def recentTimes (headers : Headers) (e : Entry) : List UInt32 :=
  (e.path.take medianSpan).map (time headers)

theorem recentTimes_ne_nil (headers : Headers) (e : Entry) : e.recentTimes headers ≠ [] := by
  cases e <;> exact List.cons_ne_nil _ _

/-- The median is the time at the middle of the sorted times, and there is one. -/
theorem exists_sorted (headers : Headers) (e : Entry) :
    ∃ sorted : List UInt32, sorted.Perm (e.recentTimes headers) ∧
      sorted.Pairwise (· ≤ ·) ∧
      ∃ inside : (e.recentTimes headers).length / 2 < sorted.length,
        e.medianTime headers = sorted[(e.recentTimes headers).length / 2] := by
  let sorted := (e.recentTimes headers).mergeSort fun a b => a ≤ b
  have perm : sorted.Perm (e.recentTimes headers) := List.mergeSort_perm ..
  have some : 0 < (e.recentTimes headers).length :=
    List.length_pos_iff.2 (recentTimes_ne_nil headers e)
  have inside : (e.recentTimes headers).length / 2 < sorted.length := by
    rw [perm.length_eq]
    exact Nat.div_lt_self some (by decide)
  refine ⟨sorted, perm, ?_, inside, ?_⟩
  · have ordered : sorted.Pairwise fun a b => decide (a ≤ b) = true := by
      refine List.pairwise_mergeSort (fun a b c ab bc => ?_) (fun a b => ?_) _
      · exact decide_eq_true (UInt32.le_trans (of_decide_eq_true ab) (of_decide_eq_true bc))
      · rw [Bool.or_eq_true, decide_eq_true_iff, decide_eq_true_iff]
        exact UInt32.le_total a b
    exact ordered.imp of_decide_eq_true
  · rw [medianTime, recent_eq_take_path]
    change sorted[sorted.length / 2]?.getD 0 = _
    rw [perm.length_eq, List.getElem?_eq_getElem inside, Option.getD_some]

theorem medianTime_mem (headers : Headers) (e : Entry) :
    e.medianTime headers ∈ e.recentTimes headers := by
  obtain ⟨sorted, perm, -, inside, median⟩ := exists_sorted headers e
  rw [median]
  exact perm.mem_iff.1 (List.getElem_mem inside)

/-- At most half of the times lie below the bounds that are not above the median. -/
theorem le_medianTime_iff : v ≤ e.medianTime headers ↔
    (e.recentTimes headers).countP (· < v) ≤ (e.recentTimes headers).length / 2 := by
  obtain ⟨sorted, perm, ordered, inside, median⟩ := exists_sorted headers e
  rw [median, le_getElem_iff ordered inside, perm.countP_eq]

/-- Fewer than half of the times lie above the bounds that are not below the median. -/
theorem medianTime_le_iff : e.medianTime headers ≤ v ↔
    (e.recentTimes headers).length / 2 + (e.recentTimes headers).countP (v < ·) <
      (e.recentTimes headers).length := by
  obtain ⟨sorted, perm, ordered, inside, median⟩ := exists_sorted headers e
  rw [median, getElem_le_iff ordered inside, perm.countP_eq, perm.length_eq]

/-- The numbers of times on either side determine the median. -/
theorem medianTime_eq (known : e.recentTimes headers = times)
    (below : times.countP (· < v) ≤ times.length / 2)
    (above : times.length / 2 + times.countP (v < ·) < times.length) :
    e.medianTime headers = v := by
  subst known
  exact UInt32.le_antisymm (medianTime_le_iff.2 above) (le_medianTime_iff.2 below)

/-! ## The next entry -/

theorem recentTimes_of_root (first : e.previous? = none) :
    e.recentTimes headers = [e.time headers] := by
  rw [recentTimes, path_of_root first]
  rfl

/-- An entry adds its time to those of the entry before and drops the oldest one if there are
eleven. -/
theorem recentTimes_of_previous (before : e.previous? = some previous) :
    e.recentTimes headers = e.time headers :: (previous.recentTimes headers).take 10 := by
  rw [recentTimes, recentTimes, path_of_previous before, ← List.map_take, List.take_take]
  rfl

/-- **One step.** A time that is not before the median does not bring the median down, and one that
is not after it does not bring it up. -/
theorem medianTime_step (before : e.previous? = some previous) :
    (previous.medianTime headers ≤ e.time headers →
      previous.medianTime headers ≤ e.medianTime headers) ∧
    (e.time headers ≤ previous.medianTime headers →
      e.medianTime headers ≤ previous.medianTime headers) := by
  have times := @recentTimes_of_previous headers e previous before
  have longer :
      (e.recentTimes headers).length = min 10 (previous.recentTimes headers).length + 1 := by
    rw [times, List.length_cons, List.length_take]
  have most : (previous.recentTimes headers).length ≤ 11 := by
    rw [recentTimes, List.length_map]
    exact List.length_take_le _ _
  have fewer (p : UInt32 → Bool) (outside : ¬ p (e.time headers) = true) :
      (e.recentTimes headers).countP p ≤ (previous.recentTimes headers).countP p := by
    rw [times, List.countP_cons_of_neg outside]
    exact (List.take_sublist 10 _).countP_le
  refine ⟨fun late => ?_, fun early => ?_⟩
  · have old := le_medianTime_iff.1 (UInt32.le_refl (previous.medianTime headers))
    have new := fewer (· < previous.medianTime headers) (by simpa using late)
    rw [le_medianTime_iff]
    omega
  · have old := medianTime_le_iff.1 (UInt32.le_refl (previous.medianTime headers))
    have new := fewer (previous.medianTime headers < ·) (by simpa using early)
    rw [medianTime_le_iff]
    omega

/-- **The median time slides.** Of the last `n` times of a chain, with `n` at most eleven and
smaller only on a shorter chain, the median is one; at most `n / 2` of them lie before it and at
most `n - 1 - n / 2` after it. An entry whose time is not before the median of the entry before has
a median that is not earlier, and one whose time is not after it has a median that is not later. -/
theorem medianTime_slides (headers : Headers) (e : Entry) :
    let n := min 11 e.path.length
    let times := (e.path.take n).map (time headers)
    (times.length = n ∧ e.medianTime headers ∈ times ∧
      times.countP (· < e.medianTime headers) ≤ n / 2 ∧
      times.countP (e.medianTime headers < ·) ≤ n - 1 - n / 2) ∧
    ∀ previous, e.previous? = some previous →
      (previous.medianTime headers ≤ e.time headers →
        previous.medianTime headers ≤ e.medianTime headers) ∧
      (e.time headers ≤ previous.medianTime headers →
        e.medianTime headers ≤ previous.medianTime headers) := by
  intro n times
  have same : times = e.recentTimes headers := by
    rw [recentTimes, medianSpan, List.take_eq_take_min]
  have length : times.length = n := by
    rw [List.length_map, List.length_take]
    omega
  have below := le_medianTime_iff.1 (UInt32.le_refl (e.medianTime headers))
  have above := medianTime_le_iff.1 (UInt32.le_refl (e.medianTime headers))
  rw [← same, length] at below above
  exact ⟨⟨length, same ▸ medianTime_mem headers e, below, by omega⟩,
    fun previous before => medianTime_step before⟩

/-- A plain header with a time. -/
def datedHeader (previous : UInt256) (time : UInt32) : Header :=
  .plain { (plainHeader previous).base with time }

/-- A second and a third entry that are earlier than the root, and a fourth one in between: the
median goes down with the third one and up with the fourth. -/
theorem median_of_four :
    ∃ a b c d : Entry, Grown d ∧ a.previous? = none ∧ b.previous? = some a ∧
      c.previous? = some b ∧ d.previous? = some c ∧
      d.recentTimes header = [400, 300, 100, 500] ∧ b.medianTime header = 500 ∧
      c.medianTime header = 300 ∧ d.medianTime header = 400 ∧
      d.medianTime header ∈ (d.path.take (min 11 d.path.length)).map (time header) ∧
      (c.time header ≤ b.medianTime header ∧ c.medianTime header ≤ b.medianTime header) ∧
      (c.medianTime header ≤ d.time header ∧ c.medianTime header ≤ d.medianTime header) := by
  obtain ⟨a, -, grownA, first, bottom, headerA⟩ :=
    @exists_root (datedHeader Wide.zero 500) rfl 0 0
  have bottom : a.height = 0 := bottom
  obtain ⟨b, -, grownB, beforeB, headerB⟩ :=
    @Grown.exists_extend a (datedHeader a.hash 100) grownA rfl (by omega) 1
  have levelB : b.height = 1 := by rw [(grownB.above beforeB).2.2.1, bottom]
  obtain ⟨c, -, grownC, beforeC, headerC⟩ :=
    @Grown.exists_extend b (datedHeader b.hash 300) grownB rfl (by omega) 2
  have levelC : c.height = 2 := by rw [(grownC.above beforeC).2.2.1, levelB]
  obtain ⟨d, -, grownD, beforeD, headerD⟩ :=
    @Grown.exists_extend c (datedHeader c.hash 400) grownC rfl (by omega) 3
  -- the times, newest first, give the medians by counting
  have dated : a.time header = 500 ∧ b.time header = 100 ∧ c.time header = 300 ∧
      d.time header = 400 := by
    simp only [time, headerA, headerB, headerC, headerD]
    exact ⟨rfl, rfl, rfl, rfl⟩
  obtain ⟨timeA, timeB, timeC, timeD⟩ := dated
  have timesB : b.recentTimes header = [100, 500] := by
    rw [recentTimes_of_previous beforeB, recentTimes_of_root first, timeA, timeB]
    rfl
  have timesC : c.recentTimes header = [300, 100, 500] := by
    rw [recentTimes_of_previous beforeC, timesB, timeC]
    rfl
  have timesD : d.recentTimes header = [400, 300, 100, 500] := by
    rw [recentTimes_of_previous beforeD, timesC, timeD]
    rfl
  have medianB : b.medianTime header = 500 := medianTime_eq timesB (by decide) (by decide)
  have medianC : c.medianTime header = 300 := medianTime_eq timesC (by decide) (by decide)
  have medianD : d.medianTime header = 400 := medianTime_eq timesD (by decide) (by decide)
  have early : c.time header ≤ b.medianTime header := by rw [timeC, medianB]; decide
  have late : c.medianTime header ≤ d.time header := by rw [timeD, medianC]; decide
  exact ⟨a, b, c, d, grownD, first, beforeB, beforeC, beforeD, timesD, medianB, medianC, medianD,
    (medianTime_slides header d).1.2.1,
    ⟨early, ((medianTime_slides header c).2 b beforeC).2 early⟩,
    ⟨late, ((medianTime_slides header d).2 c beforeD).1 late⟩⟩

end Entry

end BlockRules
