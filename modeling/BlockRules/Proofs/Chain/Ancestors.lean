import Mathlib
import BlockRules.Chain.Entry
import BlockRules.Fault

/-!
# Ancestors by shortcuts

Looking up an ancestor mixes two kinds of links. This module says that the mixture finds
what the links to the entry before find alone, on every chain that `Entry.root?` and
`Entry.extend?` can build, whatever the height of its root.

* **links** — `LeadsTo e a`: following the links to the entry before, `e` leads to `a`.
  Heights tell the entries of a chain apart (`LeadsTo.eq_of_height`);
* **invariant** — `Linked e`: heights grow by one, a shortcut leads to an ancestor at
  `skipHeight`, and it is missing only where the chain does not reach down that far. It
  is kept by growth (`Grown.linked`), because growth looks a shortcut up by the very walk
  that the invariant makes correct;
* **loop** — `Descends` takes the walk step by step, and there the height before height
  zero is a fault. `Linked.descends` says that the loop arrives without one, and at the
  ancestor it was sent for;
* **lookup** — `Linked.ancestor?_eq_some_iff` and `Linked.ancestor?_eq_none_iff` say what is
  found and when nothing is, and `ancestors_of_grown` puts all of it together.
-/

namespace BlockRules

/-! ## Shortcut heights -/

theorem clearLowestBit_le (n : Nat) : clearLowestBit n ≤ n - 1 := Nat.and_le_right

/-- A shortcut leads down. -/
theorem skipHeight_lt {height : Nat} (pos : 0 < height) : skipHeight height < height := by
  rw [skipHeight]
  split
  · exact pos
  · split
    · have outer := clearLowestBit_le (clearLowestBit (height - 1))
      have inner := clearLowestBit_le (height - 1)
      omega
    · have := clearLowestBit_le height
      omega

namespace Entry

/-! ## Following links -/

/-- Following the links to the entry before, the first entry leads to the second one. -/
def LeadsTo : Entry → Entry → Prop := Relation.ReflTransGen fun x y => x.previous? = some y

theorem LeadsTo.refl (e : Entry) : LeadsTo e e := Relation.ReflTransGen.refl

theorem LeadsTo.head {e previous a : Entry} (before : e.previous? = some previous)
    (rest : LeadsTo previous a) : LeadsTo e a := Relation.ReflTransGen.head before rest

theorem LeadsTo.trans {a b c : Entry} (ab : LeadsTo a b) (bc : LeadsTo b c) : LeadsTo a c :=
  Relation.ReflTransGen.trans ab bc

/-- The root of a chain is the same from all of its entries. -/
theorem origin_of_previous {e previous : Entry} (before : e.previous? = some previous) :
    previous.origin = e.origin := by
  cases e with
  | root data => simp [previous?] at before
  | link data p =>
    obtain rfl := Option.some.inj before
    rfl
  | jump data p skip =>
    obtain rfl := Option.some.inj before
    rfl

theorem LeadsTo.origin_eq {e a : Entry} (leads : LeadsTo e a) : a.origin = e.origin := by
  induction leads with
  | refl => rfl
  | tail _ before ih => rw [origin_of_previous before, ih]

/-! ## The invariant of growth -/

/-- Heights grow by one; a shortcut leads to the ancestor at the height it is meant for, and
there is none only where that height lies below the root. -/
def Linked : Entry → Prop
  | root _ => True
  | link data previous =>
    Linked previous ∧ data.height = previous.height + 1 ∧
      skipHeight data.height < previous.origin.height
  | jump data previous skip =>
    Linked previous ∧ data.height = previous.height + 1 ∧
      LeadsTo previous skip ∧ skip.height = skipHeight data.height

theorem Linked.previous {e previous : Entry} (linked : Linked e)
    (before : e.previous? = some previous) :
    Linked previous ∧ e.height = previous.height + 1 := by
  cases e with
  | root data => simp [previous?] at before
  | link data p =>
    obtain rfl := Option.some.inj before
    exact ⟨linked.1, linked.2.1⟩
  | jump data p skip =>
    obtain rfl := Option.some.inj before
    exact ⟨linked.1, linked.2.1⟩

/-- What is below a linked entry is linked too, by induction on the way down. -/
theorem Linked.of_leadsTo {e a : Entry} (linked : Linked e) (leads : LeadsTo e a) : Linked a := by
  induction leads with
  | refl => exact linked
  | tail _ before ih => exact (ih.previous before).1

theorem Linked.height_le {e a : Entry} (linked : Linked e) (leads : LeadsTo e a) :
    a.height ≤ e.height := by
  induction leads with
  | refl => exact le_refl _
  | tail reached before ih =>
    have := ((linked.of_leadsTo reached).previous before).2
    omega

theorem Linked.origin_height_le {e : Entry} (linked : Linked e) : e.origin.height ≤ e.height := by
  induction e with
  | root data => exact le_refl _
  | link data previous ih =>
    have lower := ih linked.1
    have step : data.height = previous.height + 1 := linked.2.1
    show previous.origin.height ≤ data.height
    omega
  | jump data previous skip ih _ =>
    have lower := ih linked.1
    have step : data.height = previous.height + 1 := linked.2.1
    show previous.origin.height ≤ data.height
    omega

/-- Of two entries of a chain, one leads to the other. -/
theorem LeadsTo.total {e a b : Entry} (ha : LeadsTo e a) (hb : LeadsTo e b) :
    LeadsTo a b ∨ LeadsTo b a := by
  have unique : Relator.RightUnique fun x y : Entry => x.previous? = some y := by
    intro x y z hy hz
    rw [hy] at hz
    exact Option.some.inj hz
  exact Relation.ReflTransGen.total_of_right_unique unique ha hb

/-- No two entries of a chain have one height. -/
theorem LeadsTo.eq_of_height {e a b : Entry} (linked : Linked e) (ha : LeadsTo e a)
    (hb : LeadsTo e b) (same : a.height = b.height) : a = b := by
  -- the one that is reached later lies strictly lower unless they coincide
  have one_way : ∀ {x y : Entry}, Linked x → LeadsTo x y → x.height = y.height → x = y := by
    intro x y hx hxy heq
    rcases Relation.ReflTransGen.cases_head hxy with rfl | ⟨p, before, rest⟩
    · rfl
    · obtain ⟨hp, hstep⟩ := hx.previous before
      have := hp.height_le rest
      omega
  rcases ha.total hb with hab | hba
  · exact one_way (linked.of_leadsTo ha) hab same
  · exact (one_way (linked.of_leadsTo hb) hba same.symm).symm

/-! ## The walk, step by step -/

/-- One step from an entry toward a height below its own. Choosing between the two links
takes the height before this entry's, and height zero, as a word, has none before it. -/
def stepToward (target : Nat) (e : Entry) : Except Fault (Option Entry) :=
  match e.skip? with
  | none => .ok e.previous?
  | some skip =>
    if e.height = 0 then .error .wordOverflow
    else if takesSkip e.height skip.height target then .ok (some skip)
    else .ok e.previous?

/-- The loop that goes down to a height: from an entry, in a number of steps, to a result.
A step that is a fault leads nowhere, so a loop that arrives has met none. -/
inductive Descends (target : Nat) : Nat → Entry → Option Entry → Prop
  | arrived {e : Entry} : e.height ≤ target → Descends target 0 e (some e)
  | ended {e : Entry} : target < e.height → e.stepToward target = .ok none →
    Descends target 0 e none
  | step {n : Nat} {e x : Entry} {r : Option Entry} : target < e.height →
      e.stepToward target = .ok (some x) → Descends target n x r → Descends target (n + 1) e r

/-- The shortcut is taken only if it does not lead too far. -/
theorem target_le_of_takesSkip {height skip target : Nat} (takes : takesSkip height skip target) :
    target ≤ skip := by
  simp only [takesSkip, Bool.or_eq_true, beq_iff_eq, Bool.and_eq_true, decide_eq_true_eq] at takes
  omega

/-- A step is no fault. It ends at the root, or leads down the chain and not too far. -/
theorem Linked.stepToward {e : Entry} {target : Nat} (linked : Linked e)
    (above : target < e.height) :
    (e.stepToward target = .ok none ∧ e.origin = e) ∨
      ∃ x, e.stepToward target = .ok (some x) ∧ LeadsTo e x ∧ target ≤ x.height ∧
        x.height < e.height := by
  cases e with
  | root data => exact .inl ⟨rfl, rfl⟩
  | link data previous =>
    have step : data.height = previous.height + 1 := linked.2.1
    have above' : target < data.height := above
    refine .inr ⟨previous, rfl, LeadsTo.head rfl (LeadsTo.refl _), by omega, ?_⟩
    show previous.height < data.height
    omega
  | jump data previous skip =>
    obtain ⟨hprev, step, hskip, -⟩ := linked
    have above' : target < data.height := above
    have lower := hprev.height_le hskip
    have positive : (jump data previous skip).height ≠ 0 := by
      show data.height ≠ 0
      omega
    by_cases takes : takesSkip data.height skip.height target
    · refine .inr ⟨skip, ?_, LeadsTo.head rfl hskip, target_le_of_takesSkip takes, ?_⟩
      · simp only [Entry.stepToward, skip?, if_neg positive]
        exact if_pos takes
      · show skip.height < data.height
        omega
    · refine .inr ⟨previous, ?_, LeadsTo.head rfl (LeadsTo.refl _), by omega, ?_⟩
      · simp only [Entry.stepToward, skip?, if_neg positive]
        exact if_neg takes
      · show previous.height < data.height
        omega

theorem walkTo_of_height_le {e : Entry} {target : Nat} (arrived : e.height ≤ target) :
    walkTo target e = some e := by
  cases e with
  | root data => exact if_pos arrived
  | link data previous => exact if_pos arrived
  | jump data previous skip => exact if_pos arrived

/-- The walk goes on from where a step leads. -/
theorem walkTo_of_step {e : Entry} {target : Nat} {r : Option Entry} (above : target < e.height)
    (step : e.stepToward target = .ok r) : walkTo target e = r.bind (walkTo target) := by
  have not_arrived : ¬ e.height ≤ target := by omega
  cases e with
  | root data =>
    obtain rfl := Except.ok.inj step
    exact if_neg not_arrived
  | link data previous =>
    obtain rfl := Except.ok.inj step
    exact if_neg not_arrived
  | jump data previous skip =>
    have positive : (jump data previous skip).height ≠ 0 := by omega
    simp only [Entry.stepToward, skip?, if_neg positive] at step
    rw [walkTo, if_neg (show ¬ data.height ≤ target from not_arrived)]
    by_cases takes : takesSkip data.height skip.height target
    · rw [if_pos
        (show takesSkip (jump data previous skip).height skip.height target from takes)] at step
      obtain rfl := Except.ok.inj step
      rw [if_pos takes]
      rfl
    · rw [if_neg
        (show ¬ takesSkip (jump data previous skip).height skip.height target from takes)] at step
      obtain rfl := Except.ok.inj step
      rw [if_neg takes]
      rfl

/-- The loop arrives where the walk does, after no more steps than there are heights between.
What it finds is the ancestor at the height, and where it finds nothing the chain does not
reach down that far. -/
theorem Linked.descends {e : Entry} {target : Nat} (linked : Linked e) (high : target ≤ e.height) :
    (∃ n ≤ e.height - target, Descends target n e (walkTo target e)) ∧
      (∀ a, walkTo target e = some a → LeadsTo e a ∧ a.height = target) ∧
      (walkTo target e = none → target < e.origin.height) := by
  -- each step leads strictly down, so the induction is on the height
  induction hn : e.height using Nat.strong_induction_on generalizing e with
  | _ height ih =>
    subst hn
    rcases Nat.eq_or_lt_of_le high with same | above
    · rw [walkTo_of_height_le same.ge]
      refine ⟨⟨0, Nat.zero_le _, .arrived same.ge⟩, ?_, nofun⟩
      intro a ha
      obtain rfl := Option.some.inj ha
      exact ⟨LeadsTo.refl _, same.symm⟩
    · rcases linked.stepToward above with ⟨step, atRoot⟩ | ⟨x, step, leads, low, lower⟩
      · rw [walkTo_of_step above step]
        refine ⟨⟨0, Nat.zero_le _, .ended above step⟩, nofun, ?_⟩
        intro _
        rw [atRoot]
        exact above
      · rw [walkTo_of_step above step]
        obtain ⟨⟨n, hn, loop⟩, found, missed⟩ :=
          ih x.height lower (linked.of_leadsTo leads) low rfl
        refine ⟨⟨n + 1, by omega, .step above step loop⟩, ?_, ?_⟩
        · intro a ha
          obtain ⟨rest, hat⟩ := found a ha
          exact ⟨leads.trans rest, hat⟩
        · intro none
          rw [← leads.origin_eq]
          exact missed none

/-- Looking up an ancestor finds the entry at that height to which the links lead. -/
theorem Linked.ancestor?_eq_some_iff {e a : Entry} {height : Nat} (linked : Linked e) :
    e.ancestor? height = some a ↔ LeadsTo e a ∧ a.height = height := by
  rw [ancestor?]
  by_cases above : e.height < height
  · rw [if_pos above]
    refine ⟨nofun, ?_⟩
    rintro ⟨leads, rfl⟩
    exact absurd (linked.height_le leads) (Nat.not_le_of_lt above)
  · rw [if_neg above]
    obtain ⟨-, found, missed⟩ := linked.descends (Nat.le_of_not_lt above)
    refine ⟨found a, ?_⟩
    rintro ⟨leads, rfl⟩
    rcases walked : walkTo a.height e with _ | b
    · have low := (linked.of_leadsTo leads).origin_height_le
      rw [leads.origin_eq] at low
      exact absurd (missed walked) (Nat.not_lt_of_le low)
    · obtain ⟨hb, hat⟩ := found b walked
      rw [hb.eq_of_height linked leads hat]

/-- Looking up an ancestor finds nothing above the entry and below the root only. -/
theorem Linked.ancestor?_eq_none_iff {e : Entry} {height : Nat} (linked : Linked e) :
    e.ancestor? height = none ↔ e.height < height ∨ height < e.origin.height := by
  refine ⟨?_, ?_⟩
  · intro missing
    by_contra inside
    rw [ancestor?, if_neg (by omega)] at missing
    have below := (linked.descends (by omega)).2.2 missing
    omega
  · intro outside
    rcases found : e.ancestor? height with _ | a
    · rfl
    · obtain ⟨leads, rfl⟩ := linked.ancestor?_eq_some_iff.1 found
      have high := linked.height_le leads
      have low := (linked.of_leadsTo leads).origin_height_le
      rw [leads.origin_eq] at low
      omega

/-! ## Growth keeps the invariant -/

/-- What extending a chain gives: a link where the chain does not reach down to the height
of the shortcut, and a jump to the ancestor at that height elsewhere. -/
theorem extend?_eq_ok {previous e : Entry} {id : Nat} {header : Header}
    (built : previous.extend? id header = .ok e) :
    ∃ data : EntryData, data.height = previous.height + 1 ∧
      ((previous.ancestor? (skipHeight data.height) = none ∧ e = link data previous) ∨
        ∃ skip, previous.ancestor? (skipHeight data.height) = some skip ∧
          e = jump data previous skip) := by
  rw [extend?] at built
  split at built
  · cases built
  · split at built
    · cases built
    · simp only at built
      split at built
      · next missing =>
        obtain rfl := Except.ok.inj built
        refine ⟨_, ?_, .inl ⟨missing, rfl⟩⟩
        rfl
      · next skip found =>
        obtain rfl := Except.ok.inj built
        refine ⟨_, ?_, .inr ⟨skip, found, rfl⟩⟩
        rfl

theorem root?_eq_ok {id : Nat} {header : Header} {height : UInt32} {e : Entry}
    (built : root? id header height = .ok e) :
    ∃ data, data.height = height.toNat ∧ e = root data := by
  rw [root?] at built
  split at built
  · obtain rfl := Except.ok.inj built
    exact ⟨_, rfl, rfl⟩
  · cases built

/-- Growing keeps the links right: a parent is one below, and a skip link leads to its height. -/
theorem Grown.linked {e : Entry} (grown : Grown e) : Linked e := by
  induction grown with
  | root built =>
    obtain ⟨data, -, rfl⟩ := root?_eq_ok built
    trivial
  | @extend previous _ _ e _ built ih =>
    -- the shortcut is looked up on the chain so far, where the lookup is known to be right
    obtain ⟨data, step, ⟨missing, rfl⟩ | ⟨skip, found, rfl⟩⟩ := extend?_eq_ok built
    · have lower : skipHeight data.height < data.height := skipHeight_lt (by omega)
      rcases ih.ancestor?_eq_none_iff.1 missing with above | below
      · omega
      · exact ⟨ih, step, below⟩
    · obtain ⟨leads, hat⟩ := ih.ancestor?_eq_some_iff.1 found
      exact ⟨ih, step, leads, hat⟩

/-- The shortcut of an entry of a chain is its ancestor at `skipHeight`, if the entry is not
the root and the chain reaches down that far. -/
theorem Linked.skip?_eq {e : Entry} (linked : Linked e) :
    e.skip? =
      if e.previous? ≠ none ∧ e.origin.height ≤ skipHeight e.height then
        e.ancestor? (skipHeight e.height)
      else none := by
  cases e with
  | root data => rfl
  | link data previous =>
    have below : ¬ previous.origin.height ≤ skipHeight data.height := Nat.not_le_of_lt linked.2.2
    exact (if_neg fun reaches => below reaches.2).symm
  | jump data previous skip =>
    have ⟨hprev, step, leads, hat⟩ := linked
    have reaches : previous.origin.height ≤ skipHeight data.height := by
      rw [← hat, ← leads.origin_eq]
      exact (hprev.of_leadsTo leads).origin_height_le
    rw [if_pos ⟨nofun, reaches⟩, eq_comm]
    exact linked.ancestor?_eq_some_iff.2 ⟨LeadsTo.head rfl leads, hat⟩

/-! ## Every chain -/

/-- **Shortcuts do not change what is found.** Of every entry that growth can build, on a
root of any height: the shortcut is the ancestor at `skipHeight`, or missing because the
entry is the root or the chain does not reach down that far; the lookup finds the one entry
at a height to which the links lead, and finds nothing at a height that the chain does not
have; and the loop of the lookup arrives, within as many steps as there are heights to go
down, without ever taking the height before height zero. -/
theorem ancestors_of_grown {e : Entry} (grown : Grown e) :
    (e.skip? =
      if e.previous? ≠ none ∧ e.origin.height ≤ skipHeight e.height then
        e.ancestor? (skipHeight e.height)
      else none) ∧
    (∀ height, e.origin.height ≤ height → height ≤ e.height →
      ∃ a, e.ancestor? height = some a ∧ LeadsTo e a ∧ a.height = height ∧
        ∀ b, LeadsTo e b → b.height = height → b = a) ∧
    (∀ height, e.height < height ∨ height < e.origin.height → e.ancestor? height = none) ∧
    (∀ height ≤ e.height, ∃ n ≤ e.height - height,
      Descends height n e (e.ancestor? height)) := by
  have linked := grown.linked
  refine ⟨linked.skip?_eq, ?_, ?_, ?_⟩
  · intro height low high
    rcases found : e.ancestor? height with _ | a
    · rcases linked.ancestor?_eq_none_iff.1 found with above | below <;> omega
    · obtain ⟨leads, hat⟩ := linked.ancestor?_eq_some_iff.1 found
      refine ⟨a, rfl, leads, hat, ?_⟩
      intro b hb hbat
      exact hb.eq_of_height linked leads (hbat.trans hat.symm)
  · intro height outside
    exact linked.ancestor?_eq_none_iff.2 outside
  · intro height high
    rw [ancestor?, if_neg (Nat.not_lt_of_le high)]
    exact (linked.descends high).1

/-- Growth succeeds with a header that names the entry, as long as heights last. -/
theorem extend?_of_names {previous : Entry} {id : Nat} {header : Header}
    (names : header.base.previous = previous.hash) (room : previous.height < 0xffffffff) :
    ∃ e, previous.extend? id header = .ok e ∧ e.previous? = some previous ∧
      e.height = previous.height + 1 := by
  rw [extend?]
  rw [if_neg (not_not_intro names), if_neg (by omega)]
  simp only
  split
  · exact ⟨_, rfl, rfl, rfl⟩
  · exact ⟨_, rfl, rfl, rfl⟩

/-- A plain header on top of the entry with a hash. -/
def plainHeader (previous : UInt256) : Header :=
  .plain
    { version := 1, previous, merkleRoot := Wide.zero, time := 0, bits := ⟨0x207fffff⟩,
      nonce := 0 }

/-- A chain of three on a root at height one: the shortcut of the second entry would lead
below the root, the one of the third leads to it. -/
theorem ancestors_of_three_from_height_one :
    ∃ a b c : Entry,
      root? 0 (plainHeader Wide.zero) 1 = .ok a ∧
      a.extend? 1 (plainHeader a.hash) = .ok b ∧ b.extend? 2 (plainHeader b.hash) = .ok c ∧
      b.skip? = none ∧ c.skip? = c.ancestor? 1 ∧ c.ancestor? 0 = none ∧
      c.ancestor? 4 = none ∧ ∃ x, c.ancestor? 1 = some x ∧ LeadsTo c x ∧ x.height = 1 := by
  obtain ⟨a, ha, originA, heightA⟩ :
      ∃ a, root? 0 (plainHeader Wide.zero) 1 = .ok a ∧ a.origin = a ∧ a.height = 1 :=
    ⟨_, rfl, rfl, rfl⟩
  obtain ⟨b, hb, beforeB, heightB⟩ :=
    @extend?_of_names a 1 (plainHeader a.hash) rfl (by omega)
  obtain ⟨c, hc, beforeC, heightC⟩ :=
    @extend?_of_names b 2 (plainHeader b.hash) rfl (by omega)
  have originB : b.origin.height = 1 := by rw [← origin_of_previous beforeB, originA, heightA]
  have originC : c.origin.height = 1 := by rw [← origin_of_previous beforeC, originB]
  have skipB : skipHeight b.height = 0 := by rw [heightB, heightA]; decide
  have skipC : skipHeight c.height = 1 := by rw [heightC, heightB, heightA]; decide
  have grownB : Grown b := .extend (.root ha) hb
  obtain ⟨shortcutB, -⟩ := ancestors_of_grown grownB
  obtain ⟨shortcutC, found, missing, -⟩ := ancestors_of_grown (.extend grownB hc)
  obtain ⟨x, hx, leads, hat, -⟩ := found 1 (by omega) (by omega)
  refine ⟨a, b, c, ha, hb, hc, ?_, ?_, missing 0 (by omega), missing 4 (by omega), x, hx,
    leads, hat⟩
  · rw [shortcutB, skipB, originB]
    exact if_neg (by simp)
  · rw [shortcutC, skipC, originC]
    exact if_pos ⟨by simp [beforeC], le_refl 1⟩

end Entry

end BlockRules
