import Mathlib
import BlockRules.Chain.Branch
import BlockRules.Proofs.Chain.Growth

/-!
# The shape of a locator

A locator lists a chain from the top: twelve entries in a row, then entries at distances that
double, and last the root. The loop that lists them keeps a step, which doubles once eleven entries
are listed; this module says where it gets to.

* **places** — place `i` lies `locatorOffset i` below the top, or is the root where the chain does
  not reach down that far (`Entry.locatorEntry`);
* **one step** — at a place above the root, the loop stands `locatorOffset i` below the top, and
  its step leads to the next place. It has not been cut to a word yet, as there are fewer heights
  than words (`Linked.locatorEntry_succ`);
* **the run** — so the loop lists the places in order and ends at the first one that is the root
  (`Linked.lists`). `Lists` is the loop without a bound on the number of its rounds, so a locator
  that it lists has been cut short by none (`locatorFrom_eq_of_lists`).
-/

namespace BlockRules.Entry

variable {e x : Entry} {count step height : Nat} {es : List Entry}

/-! ## The loop -/

/-- The step behind an entry, with the number of entries listed before it. -/
def nextStep (count step : Nat) : Nat := if 10 ≤ count then min (2 * step) 0xffffffff else step

/-- The loop that lists entries: from an entry on, with a number of entries listed before it and a
step. It ends at a root. -/
inductive Lists : Nat → Nat → Entry → List Entry → Prop
  | ended {count step : Nat} {e : Entry} : e.previous? = none → Lists count step e [e]
  | step {count step : Nat} {e : Entry} {es : List Entry} : e.previous? ≠ none →
      Lists (count + 1) (nextStep count step) ((e.ancestor? (e.height - step)).getD e.origin) es →
      Lists count step e (e :: es)

/-- A bound on the rounds does not matter if the loop ends within it. -/
theorem locatorFrom_eq_of_lists (lists : Lists count step e es) {fuel : Nat}
    (enough : es.length ≤ fuel) :
    locatorFrom fuel count step e = es.map hash := by
  induction lists generalizing fuel with
  | ended first =>
    obtain ⟨fuel, rfl⟩ := Nat.exists_eq_succ_of_ne_zero (Nat.one_le_iff_ne_zero.1 enough)
    simp only [locatorFrom, first]
    rfl
  | @step count step e es inner rest ih =>
    obtain ⟨fuel, rfl⟩ :=
      Nat.exists_eq_add_of_le' (Nat.succ_le_of_lt (Nat.zero_lt_of_lt enough))
    obtain ⟨previous, before⟩ := Option.ne_none_iff_exists'.1 inner
    rw [List.map_cons, ← ih (Nat.le_of_succ_le_succ enough)]
    simp only [locatorFrom, before]
    rfl

/-! ## Places -/

/-- How far below the top a place of a locator lies. -/
def locatorOffset (i : Nat) : Nat := if i ≤ 11 then i else 9 + 2 ^ (i - 10)

/-- The distance to the next place: one up to the eleventh, and twice the last one from then on. -/
theorem locatorOffset_succ (i : Nat) : locatorOffset (i + 1) = locatorOffset i + 2 ^ (i - 10) := by
  rcases Nat.lt_or_ge i 11 with near | far
  · rw [locatorOffset, locatorOffset, if_pos (by omega), if_pos (by omega),
      Nat.sub_eq_zero_of_le (by omega), Nat.pow_zero]
  · obtain ⟨k, rfl⟩ := Nat.exists_eq_add_of_le far
    have doubled : 2 ^ (11 + k + 1 - 10) = 2 ^ (11 + k - 10) + 2 ^ (11 + k - 10) := by
      rw [← Nat.two_mul, ← Nat.pow_succ']
      congr 1
      omega
    rw [locatorOffset, if_neg (by omega), doubled, locatorOffset]
    split
    next last =>
      obtain rfl : k = 0 := by omega
      rfl
    next => omega

/-- Every offset of a locator lies further back than the one before it. -/
theorem locatorOffset_strictMono : StrictMono locatorOffset := by
  refine strictMono_nat_of_lt_succ fun i => ?_
  rw [locatorOffset_succ]
  exact Nat.lt_add_of_pos_right (Nat.two_pow_pos _)

/-- The distance to the next place is no more than what lies above, from the second place on. -/
theorem step_le_locatorOffset (i : Nat) : 2 ^ (i - 10) ≤ max 1 (locatorOffset i) := by
  rw [locatorOffset]
  split
  next near =>
    rcases Nat.lt_or_ge i 11 with low | last
    · rw [Nat.sub_eq_zero_of_le (by omega)]
      exact Nat.le_max_left _ _
    · obtain rfl : i = 11 := by omega
      decide
  next => omega

/-- The entry at a place: the ancestor that lies there, or else the root. -/
def locatorEntry (e : Entry) (i : Nat) : Entry :=
  (e.ancestor? (e.height - locatorOffset i)).getD e.origin

theorem Linked.locatorEntry_zero (linked : Linked e) : e.locatorEntry 0 = e := by
  have found := linked.ancestor?_eq_some_iff.2 ⟨LeadsTo.refl e, rfl⟩
  rw [locatorEntry, locatorOffset, if_pos (Nat.zero_le _), Nat.sub_zero, found, Option.getD_some]

/-- The links lead to every place, and down to its offset unless the root comes first. -/
theorem Linked.locatorEntry (linked : Linked e) (i : Nat) :
    LeadsTo e (e.locatorEntry i) ∧
      (e.locatorEntry i).height = max (e.height - locatorOffset i) e.origin.height := by
  rw [Entry.locatorEntry]
  rcases found : e.ancestor? (e.height - locatorOffset i) with _ | a
  · refine ⟨leadsTo_origin e, ?_⟩
    have below := linked.ancestor?_eq_none_iff.1 found
    rw [Option.getD_none]
    omega
  · obtain ⟨leads, level⟩ := linked.ancestor?_eq_some_iff.1 found
    have low := (linked.of_leadsTo leads).origin_height_le
    rw [leads.origin_eq] at low
    rw [Option.getD_some]
    exact ⟨leads, by omega⟩

/-- At a place above the root stands the ancestor at its offset. -/
theorem Linked.ancestor?_eq_locatorEntry (linked : Linked e) {i : Nat}
    (above : e.origin.height + locatorOffset i < e.height) :
    e.ancestor? (e.height - locatorOffset i) = some (e.locatorEntry i) := by
  obtain ⟨leads, level⟩ := linked.locatorEntry i
  exact linked.ancestor?_eq_some_iff.2 ⟨leads, by omega⟩

/-- Any other place is the root. -/
theorem Linked.locatorEntry_eq_origin (linked : Linked e) {i : Nat}
    (below : e.height ≤ e.origin.height + locatorOffset i) : e.locatorEntry i = e.origin := by
  obtain ⟨leads, level⟩ := linked.locatorEntry i
  exact leads.eq_of_height linked (leadsTo_origin e) (by omega)

/-- From an entry, what lies below is found as from any entry above it. -/
theorem Linked.ancestor?_of_leadsTo (linked : Linked e) (leads : LeadsTo e x)
    (low : height ≤ x.height) :
    x.ancestor? height = e.ancestor? height := by
  ext a
  rw [(linked.of_leadsTo leads).ancestor?_eq_some_iff, linked.ancestor?_eq_some_iff]
  refine and_congr_left fun level => ⟨leads.trans, fun leads' => ?_⟩
  exact leads.of_height_le linked leads' (level ▸ low)

/-! ## One step -/

/-- The step of the loop at a place. -/
def locatorStep (i : Nat) : Nat := min (2 ^ (i - 10)) 0xffffffff

/-- The stride of the loop is the stride in closed form, from one entry to the next. -/
theorem nextStep_locatorStep (i : Nat) : nextStep i (locatorStep i) = locatorStep (i + 1) := by
  rw [nextStep, locatorStep, locatorStep]
  split
  next far =>
    have doubled : 2 ^ (i + 1 - 10) = 2 * 2 ^ (i - 10) := by
      rw [← Nat.pow_succ']
      congr 1
      omega
    omega
  next near => rw [Nat.sub_eq_zero_of_le (by omega), Nat.sub_eq_zero_of_le (by omega)]

/-- **One step.** From a place above the root, the loop goes to the next place. -/
theorem Linked.locatorEntry_succ (linked : Linked e) (words : e.height < 2 ^ 32) {i : Nat}
    (above : e.origin.height + locatorOffset i < e.height) :
    ((e.locatorEntry i).ancestor? ((e.locatorEntry i).height - locatorStep i)).getD
        (e.locatorEntry i).origin = e.locatorEntry (i + 1) := by
  obtain ⟨leads, level⟩ := linked.locatorEntry i
  have uncut : locatorStep i = 2 ^ (i - 10) := by
    have small := step_le_locatorOffset i
    rw [locatorStep]
    omega
  have next : (e.locatorEntry i).height - locatorStep i = e.height - locatorOffset (i + 1) := by
    rw [locatorOffset_succ]
    omega
  rw [linked.ancestor?_of_leadsTo leads (Nat.sub_le _ _), next, leads.origin_eq, Entry.locatorEntry]

/-! ## The run -/

/-- **The run.** From a place on, the loop lists the places up to the first one that is the root. -/
theorem Linked.lists (linked : Linked e) (words : e.height < 2 ^ 32) {last : Nat}
    (above : ∀ i < last, e.origin.height + locatorOffset i < e.height)
    (below : e.height ≤ e.origin.height + locatorOffset last) (rounds i : Nat)
    (ahead : i + rounds = last) :
    Lists i (locatorStep i) (e.locatorEntry i)
      ((List.range' i (rounds + 1)).map e.locatorEntry) := by
  induction rounds generalizing i with
  | zero =>
    obtain rfl : i = last := ahead
    have root := linked.locatorEntry_eq_origin below
    exact .ended (by rw [root]; exact previous?_origin e)
  | succ rounds ih =>
    have higher := above i (by omega)
    obtain ⟨leads, level⟩ := linked.locatorEntry i
    have inner : (e.locatorEntry i).previous? ≠ none := by
      intro first
      have bottom := leads.origin_eq
      rw [origin_eq_self first] at bottom
      rw [bottom] at level
      omega
    have rest := ih (i + 1) (by omega)
    rw [← nextStep_locatorStep, ← linked.locatorEntry_succ words higher] at rest
    rw [List.range'_succ, List.map_cons]
    exact .step inner rest

/-- The first place that is the root, within 43 places. -/
theorem exists_last (words : e.height < 2 ^ 32) :
    ∃ last ≤ 42, (∀ i < last, e.origin.height + locatorOffset i < e.height) ∧
      e.height ≤ e.origin.height + locatorOffset last := by
  have reached : e.height ≤ e.origin.height + locatorOffset 42 := by
    have far : 2 ^ 32 ≤ locatorOffset 42 := by decide
    omega
  have some : ∃ last, e.height ≤ e.origin.height + locatorOffset last := ⟨42, reached⟩
  exact ⟨Nat.find some, Nat.find_min' some reached,
    fun i earlier => Nat.lt_of_not_le (Nat.find_min some earlier), Nat.find_spec some⟩

/-! ## The list -/

/-- The entries at the places up to one of them. -/
def locatorEntries (e : Entry) (last : Nat) : List Entry :=
  (List.range (last + 1)).map e.locatorEntry

@[simp] theorem length_locatorEntries (e : Entry) (last : Nat) :
    (e.locatorEntries last).length = last + 1 := by
  rw [locatorEntries, List.length_map, List.length_range]

theorem getElem?_locatorEntries {last i : Nat} (within : i ≤ last) :
    (e.locatorEntries last)[i]? = some (e.locatorEntry i) := by
  rw [locatorEntries, List.getElem?_map, List.getElem?_range (Nat.lt_succ_of_le within),
    Option.map_some]

/-- Their heights, if only the last one is the root. -/
theorem Linked.map_height_locatorEntries (linked : Linked e) {last : Nat}
    (above : ∀ i < last, e.origin.height + locatorOffset i < e.height)
    (below : e.height ≤ e.origin.height + locatorOffset last) :
    (e.locatorEntries last).map Entry.height =
      (List.range last).map (fun i => e.height - locatorOffset i) ++ [e.origin.height] := by
  rw [locatorEntries, List.range_succ, List.map_append, List.map_append, List.map_map,
    List.map_singleton, List.map_singleton, linked.locatorEntry_eq_origin below]
  congr 1
  refine List.map_congr_left fun i mem => ?_
  have higher := above i (List.mem_range.1 mem)
  have level := (linked.locatorEntry i).2
  rw [Function.comp_apply]
  omega

/-- Such heights decrease. -/
theorem pairwise_gt_heights {top root last : Nat}
    (above : ∀ i < last, root + locatorOffset i < top) :
    ((List.range last).map (fun i => top - locatorOffset i) ++ [root]).Pairwise (· > ·) := by
  rw [List.pairwise_append, List.pairwise_map]
  refine ⟨List.pairwise_lt_range.imp_of_mem fun {i j} memI _ lt => ?_,
    List.pairwise_singleton .., ?_⟩
  · have higher := above i (List.mem_range.1 memI)
    have lower := locatorOffset_strictMono lt
    omega
  · intro height mem bottom single
    obtain ⟨i, memI, rfl⟩ := List.mem_map.1 mem
    have higher := above i (List.mem_range.1 memI)
    rw [List.mem_singleton.1 single]
    omega

/-- **The shape of a locator.** On a chain on a root of any height, the loop ends, and the locator
holds the hashes of the entries that it has listed. Up to the last one, these are the ancestors
`locatorOffset` below the top, as far as these lie above the root; the last one is the root. So
their heights decrease, no entry comes twice, the first one is the entry itself, and there are no
more than `12 + 31`. -/
theorem locator_shape (grown : Grown e) :
    ∃ last es, Lists 0 1 e es ∧ e.locator = es.map hash ∧ es.length = last + 1 ∧
      (∀ i < last, e.origin.height + locatorOffset i < e.height ∧
        ∃ x, e.ancestor? (e.height - locatorOffset i) = some x ∧ es[i]? = some x) ∧
      (e.height ≤ e.origin.height + locatorOffset last ∧ es[last]? = some e.origin) ∧
      es.map Entry.height =
        (List.range last).map (fun i => e.height - locatorOffset i) ++ [e.origin.height] ∧
      (es.map Entry.height).Pairwise (· > ·) ∧ es.Nodup ∧
      es.head? = some e ∧ es.getLast? = some e.origin ∧ es.length ≤ 12 + 31 := by
  have linked := grown.linked
  obtain ⟨last, most, above, below⟩ := exists_last grown.height_lt
  have lists : Lists 0 1 e (e.locatorEntries last) := by
    have run := linked.lists grown.height_lt above below last 0 (Nat.zero_add last)
    rw [linked.locatorEntry_zero, ← List.range_eq_range'] at run
    exact run
  -- places go up at least by one, so there are no more of them than heights
  have rounds : last ≤ e.height := by
    by_contra more
    have higher := above e.height (Nat.lt_of_not_le more)
    have := locatorOffset_strictMono.le_apply (x := e.height)
    omega
  have bottom : (e.locatorEntries last)[last]? = some e.origin := by
    rw [getElem?_locatorEntries le_rfl, linked.locatorEntry_eq_origin below]
  have heights := linked.map_height_locatorEntries above below
  have decrease : ((e.locatorEntries last).map Entry.height).Pairwise (· > ·) :=
    heights ▸ pairwise_gt_heights above
  refine ⟨last, e.locatorEntries last, lists,
    locatorFrom_eq_of_lists lists (by simpa using rounds), length_locatorEntries e last,
    fun i earlier => ⟨above i earlier, e.locatorEntry i,
      linked.ancestor?_eq_locatorEntry (above i earlier), getElem?_locatorEntries earlier.le⟩,
    ⟨below, bottom⟩, heights, decrease, ?_, ?_, ?_, ?_⟩
  · exact List.Nodup.of_map Entry.height (decrease.imp ne_of_gt)
  · rw [List.head?_eq_getElem?, getElem?_locatorEntries (Nat.zero_le last),
      linked.locatorEntry_zero]
  · rw [List.getLast?_eq_getElem?, length_locatorEntries, Nat.add_sub_cancel, bottom]
  · rw [length_locatorEntries]
    omega

/-- The locator of forty blocks on a root at height five: twelve in a row, three at distances that
double, and the root. -/
theorem locator_of_forty :
    ∃ e : Entry, Grown e ∧ e.origin.height = 5 ∧ e.height = 44 ∧
      ∃ es, Lists 0 1 e es ∧ e.locator = es.map hash ∧
        es.map Entry.height = [44, 43, 42, 41, 40, 39, 38, 37, 36, 35, 34, 33, 31, 27, 19, 5] ∧
        es.Nodup ∧ es.head? = some e ∧ es.getLast? = some e.origin := by
  obtain ⟨e, grown, bottom, level⟩ := exists_grown 5 39 (by decide)
  have bottom : e.origin.height = 5 := bottom
  have level : e.height = 44 := level
  obtain ⟨last, es, lists, listed, -, above, ⟨below, -⟩, heights, -, nodup, first,
      final, -⟩ :=
    locator_shape grown
  rw [bottom, level] at below heights
  obtain rfl : last = 15 := by
    rcases lt_trichotomy last 15 with early | here | late
    · -- the place before is still above the root
      have := locatorOffset_strictMono.monotone (Nat.le_of_lt_succ early)
      have : locatorOffset 14 = 25 := rfl
      omega
    · exact here
    · have higher := (above 15 late).1
      have : locatorOffset 15 = 41 := rfl
      omega
  exact ⟨e, grown, bottom, level, es, lists, listed, heights, nodup, first, final⟩

end BlockRules.Entry
