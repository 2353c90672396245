import Mathlib
import BlockRules.Chain.Branch
import BlockRules.Proofs.Chain.Growth
import BlockRules.Wide.Lemmas

/-!
# Where chains part

`Entry.fork?` goes down two chains in step and stops at the first hash that both have. On the
way it takes shortcuts, so it must never jump over the place where the chains join. This
module says that it does not, for roots of any heights.

* **agreement** — two entries agree if they have one height and one hash (`Agree`). On chains
  whose hashes tell headers apart (`TellsApart`), agreement goes down: what lies below two
  entries that agree agrees too (`Agree.previous`, `Agree.follow`), and so they have roots
  of one height;
* **descent** — entries that do not agree have no agreement above or between the ends of two
  shortcuts that do not agree either, so each way down loses nothing (`Parts.below`), and
  `meet` arrives at the highest agreement (`meet_parts`);
* **fork** — `fork?_joins` says it of two entries of any heights, and `fork_of_grown` adds what
  it means for the order of the arguments and for `isAncestorOf`.
-/

namespace BlockRules.Entry

/-- Two entries have one height and one hash. -/
def Agree (x y : Entry) : Prop := x.height = y.height ∧ x.hash = y.hash

/-- No two different headers on the chains of two entries have one hash, and none has the hash
zero, by which a root says that it has no parent. -/
def TellsApart (a b : Entry) : Prop :=
  (∀ x ∈ a.path, ∀ y ∈ b.path, x.header.hash = y.header.hash →
    x.header.base = y.header.base) ∧
    ∀ x ∈ a.path ++ b.path, x.header.hash ≠ Wide.zero

instance (a b : Entry) : Decidable (TellsApart a b) := inferInstanceAs (Decidable (_ ∧ _))

theorem TellsApart.symm {a b : Entry} (apart : TellsApart a b) : TellsApart b a := by
  refine ⟨?_, ?_⟩
  · intro y hy x hx same
    exact (apart.1 x hx y hy same.symm).symm
  · intro x hx
    exact apart.2 x (List.mem_append.2 (List.mem_append.1 hx).symm)

/-! ## Agreement goes down -/

section

variable {a b x y : Entry}

/-- If two entries agree, they are both roots, or the entries before them agree. -/
theorem Agree.previous (grownA : Grown a) (grownB : Grown b) (apart : TellsApart a b)
    (hx : LeadsTo a x) (hy : LeadsTo b y) (agree : Agree x y) :
    Option.Rel Agree x.previous? y.previous? := by
  have grownX := grownA.of_leadsTo hx
  have grownY := grownB.of_leadsTo hy
  have base : x.header.base = y.header.base := by
    refine apart.1 x (mem_path_iff.2 hx) y (mem_path_iff.2 hy) ?_
    rw [← grownX.hash_eq, ← grownY.hash_eq, agree.2]
  -- what a header names is no root's name for having no parent
  have named :
    ∀ e p : Entry, Grown p → p ∈ a.path ++ b.path → e.header.base.previous = p.hash →
      e.header.base.previous.isZero ≠ true := by
    intro e p grown mem names nameless
    refine apart.2 p mem ?_
    rw [← grown.hash_eq, ← names]
    exact Wide.eq_zero_of_isZero nameless
  rcases beforeX : x.previous? with _ | p <;> rcases beforeY : y.previous? with _ | q
  · exact .none
  · obtain ⟨grownQ, names, -⟩ := grownY.above beforeY
    have mem : q ∈ a.path ++ b.path :=
      List.mem_append_right _ (mem_path_iff.2 (hy.tail beforeY))
    refine absurd (grownX.at_root beforeX).1 ?_
    rw [base]
    exact named y q grownQ mem names
  · obtain ⟨grownP, names, -⟩ := grownX.above beforeX
    have mem : p ∈ a.path ++ b.path := List.mem_append_left _ (mem_path_iff.2 (hx.tail beforeX))
    refine absurd (grownY.at_root beforeY).1 ?_
    rw [← base]
    exact named x p grownP mem names
  · obtain ⟨-, namesP, heightX, -⟩ := grownX.above beforeX
    obtain ⟨-, namesQ, heightY, -⟩ := grownY.above beforeY
    have heights := agree.1
    refine .some ⟨by omega, ?_⟩
    rw [← namesP, ← namesQ, base]

/-- Wherever the links lead from one of two entries that agree, they lead to an agreeing entry
from the other one. -/
theorem Agree.follow (grownA : Grown a) (grownB : Grown b) (apart : TellsApart a b)
    (hx : LeadsTo a x) (hy : LeadsTo b y) (agree : Agree x y) {x' : Entry} (leads : LeadsTo x x') :
    ∃ y', LeadsTo y y' ∧ Agree x' y' := by
  induction leads with
  | refl => exact ⟨y, LeadsTo.refl y, agree⟩
  | @tail _ p reached before ih =>
    obtain ⟨z, reached', agree'⟩ := ih
    have below := agree'.previous grownA grownB apart (hx.trans reached) (hy.trans reached')
    rw [before] at below
    rcases beforeZ : z.previous? with _ | q
    · rw [beforeZ] at below
      cases below
    · rw [beforeZ] at below
      cases below with
      | some agreeQ => exact ⟨q, reached'.tail beforeZ, agreeQ⟩

/-- Chains with entries that agree have roots of one height. -/
theorem Agree.origin_height_eq (grownA : Grown a) (grownB : Grown b) (apart : TellsApart a b)
    (hx : LeadsTo a x) (hy : LeadsTo b y) (agree : Agree x y) :
    a.origin.height = b.origin.height := by
  obtain ⟨z, leads, agreeZ⟩ := agree.follow grownA grownB apart hx hy (leadsTo_origin x)
  have below := agreeZ.previous grownA grownB apart (hx.trans (leadsTo_origin x)) (hy.trans leads)
  rw [previous?_origin] at below
  have last : z.previous? = none := by
    rcases before : z.previous? with _ | q
    · rfl
    · rw [before] at below
      cases below
  rw [← hx.origin_eq, agreeZ.1, ← (hy.trans leads).origin_eq, origin_eq_self last]

end

/-! ## Going down in step -/

/-- The place where two chains part: the highest entry of the second one that agrees with an
entry of the first, or nothing if no two entries agree. -/
def Parts (low high : Entry) : Option Entry → Prop
  | none => ∀ x y, LeadsTo low x → LeadsTo high y → ¬Agree x y
  | some e => LeadsTo high e ∧ (∃ x, LeadsTo low x ∧ Agree x e) ∧
      ∀ x y, LeadsTo low x → LeadsTo high y → Agree x y → y.height ≤ e.height

/-- Going down loses nothing if whatever agrees lies below. -/
theorem Parts.below {low high low' high' : Entry} {r : Option Entry} (hl : LeadsTo low low')
    (hh : LeadsTo high high')
    (kept : ∀ x y, LeadsTo low x → LeadsTo high y → Agree x y →
      LeadsTo low' x ∧ LeadsTo high' y)
    (parts : Parts low' high' r) : Parts low high r := by
  cases r with
  | none =>
    intro x y hx hy agree
    obtain ⟨hx', hy'⟩ := kept x y hx hy agree
    exact parts x y hx' hy' agree
  | some e =>
    obtain ⟨he, ⟨z, hz, agree⟩, highest⟩ := parts
    refine ⟨hh.trans he, ⟨z, hl.trans hz, agree⟩, ?_⟩
    intro x y hx hy agree'
    obtain ⟨hx', hy'⟩ := kept x y hx hy agree'
    exact highest x y hx' hy' agree'

section

variable {a b low high : Entry}

/-- Two entries of one hash and height are where their chains part. -/
theorem parts_of_agree (linkedHigh : Linked high) (agree : Agree low high) :
    Parts low high (some high) := by
  refine ⟨LeadsTo.refl _, ⟨low, LeadsTo.refl _, agree⟩, ?_⟩
  intro x y _ hy _
  exact linkedHigh.height_le hy

/-- What agrees below two entries of one height that do not agree lies below both. -/
theorem parts_previous {previous below : Entry} (linkedLow : Linked low) (linkedHigh : Linked high)
    (same : low.height = high.height) (differ : high.hash ≠ low.hash)
    (beforeLow : low.previous? = some previous) (beforeHigh : high.previous? = some below)
    {r : Option Entry} (parts : Parts previous below r) : Parts low high r := by
  refine parts.below (LeadsTo.head beforeLow (LeadsTo.refl _))
    (LeadsTo.head beforeHigh (LeadsTo.refl _)) ?_
  intro x y hx hy agree
  obtain ⟨linkedP, heightLow⟩ := linkedLow.previous beforeLow
  obtain ⟨linkedQ, heightHigh⟩ := linkedHigh.previous beforeHigh
  have heights := agree.1
  rcases leadsTo_iff.1 hx with rfl | ⟨p, before, hx'⟩ <;>
    rcases leadsTo_iff.1 hy with rfl | ⟨q, before', hy'⟩
  · exact absurd agree.2.symm differ
  · rw [beforeHigh] at before'
    obtain rfl := Option.some.inj before'
    have := linkedQ.height_le hy'
    omega
  · rw [beforeLow] at before
    obtain rfl := Option.some.inj before
    have := linkedP.height_le hx'
    omega
  · rw [beforeLow] at before
    rw [beforeHigh] at before'
    obtain rfl := Option.some.inj before
    obtain rfl := Option.some.inj before'
    exact ⟨hx', hy'⟩

/-- Chains with roots of different heights have nothing in common. -/
theorem parts_none (grownA : Grown a) (grownB : Grown b) (apart : TellsApart a b)
    (hl : LeadsTo a low) (hh : LeadsTo b high) (differ : low.origin.height ≠ high.origin.height) :
    Parts low high none := by
  intro x y hx hy agree
  refine differ ?_
  rw [hl.origin_eq, hh.origin_eq]
  exact agree.origin_height_eq grownA grownB apart (hl.trans hx) (hh.trans hy)

/-- What agrees at all lies below the ends of two shortcuts that do not agree. -/
theorem parts_skip {skip far : Entry} (grownA : Grown a) (grownB : Grown b) (apart : TellsApart a b)
    (hl : LeadsTo a low) (hh : LeadsTo b high) (hs : LeadsTo low skip) (hf : LeadsTo high far)
    (same : skip.height = far.height) (differ : far.hash ≠ skip.hash)
    {r : Option Entry} (parts : Parts skip far r) : Parts low high r := by
  have linkedLow := (grownA.of_leadsTo hl).linked
  have linkedHigh := (grownB.of_leadsTo hh).linked
  refine parts.below hs hf ?_
  intro x y hx hy agree
  rcases Nat.lt_or_ge x.height skip.height with lower | higher
  · have heights := agree.1
    exact ⟨hs.of_height_le linkedLow hx (by omega), hf.of_height_le linkedHigh hy (by omega)⟩
  · -- an agreement above would go down to the ends of the shortcuts
    have down := hx.of_height_le linkedLow hs higher
    obtain ⟨z, hz, agreeZ⟩ :=
      agree.follow grownA grownB apart (hl.trans hx) (hh.trans hy) down
    have at_far : z = far := (hy.trans hz).eq_of_height linkedHigh hf (agreeZ.1.symm.trans same)
    rw [at_far] at agreeZ
    exact absurd agreeZ.2.symm differ

end

/-- An entry has a shortcut if the chain reaches down to where it would lead. -/
theorem Linked.skip?_isSome_iff {e : Entry} (linked : Linked e) (positive : 0 < e.height) :
    e.skip?.isSome ↔ e.origin.height ≤ skipHeight e.height := by
  cases e with
  | root data =>
    have below := skipHeight_lt positive
    exact iff_of_false nofun (Nat.not_le_of_lt below)
  | link data previous => exact iff_of_false nofun (Nat.not_le_of_lt linked.2.2)
  | jump data previous skip =>
    obtain ⟨hprev, -, leads, hat⟩ := linked
    refine iff_of_true rfl ?_
    have low := (hprev.of_leadsTo leads).origin_height_le
    rw [leads.origin_eq, hat] at low
    exact low

/-- Where there is a shortcut, there is an entry before. -/
theorem Linked.skip {e far : Entry} (linked : Linked e) (shortcut : e.skip? = some far) :
    LeadsTo e far ∧ far.height = skipHeight e.height ∧ ∃ below, e.previous? = some below := by
  cases e with
  | root data => cases shortcut
  | link data previous => cases shortcut
  | jump data previous skip =>
    obtain rfl := Option.some.inj shortcut
    obtain ⟨-, -, leads, hat⟩ := linked
    exact ⟨LeadsTo.head rfl leads, hat, previous, rfl⟩

/-- **Going down in step never jumps over the fork**: from entries of one height on two chains
whose hashes tell headers apart, it arrives where the chains part. -/
theorem meet_parts {a b low high : Entry} (grownA : Grown a) (grownB : Grown b)
    (apart : TellsApart a b) (hl : LeadsTo a low) (hh : LeadsTo b high)
    (same : low.height = high.height) : Parts low high (meet low high) := by
  -- by induction on the first chain, as the descent itself goes
  induction low generalizing high with
  | root data =>
    have linkedHigh := (grownB.of_leadsTo hh).linked
    rw [meet]
    split
    next hit => exact parts_of_agree linkedHigh ⟨same, hit.symm⟩
    next miss =>
      intro x y hx hy agree
      obtain rfl := hx.eq_of_root rfl
      obtain rfl := hy.eq_of_height linkedHigh (LeadsTo.refl _) (agree.1.symm.trans same)
      exact miss agree.2.symm
  | link data previous ih =>
    have linkedLow := (grownA.of_leadsTo hl).linked
    have linkedHigh := (grownB.of_leadsTo hh).linked
    have heightLow : (link data previous).height = previous.height + 1 := linkedLow.2.1
    have noShortcut : ¬ (link data previous).origin.height ≤ skipHeight high.height := by
      rw [← same, ← linkedLow.skip?_isSome_iff (by omega)]
      exact nofun
    rw [meet]
    split
    next hit => exact parts_of_agree linkedHigh ⟨same, hit.symm⟩
    next miss =>
      split
      next below shortcut before =>
        have step := (linkedHigh.previous before).2
        exact parts_previous linkedLow linkedHigh same miss rfl before
          (ih (hl.tail rfl) (hh.tail before) (by omega))
      next other =>
        refine parts_none grownA grownB apart hl hh ?_
        intro roots
        rcases shortcut : high.skip? with _ | far
        · -- the second chain ends here and the first one goes on
          rcases before : high.previous? with _ | below
          · have low := linkedLow.1.origin_height_le
            have first : (link data previous).origin = previous.origin := rfl
            rw [origin_eq_self before, first] at roots
            omega
          · exact other below shortcut before
        · have reaches : high.origin.height ≤ skipHeight high.height := by
            rw [← linkedHigh.skip?_isSome_iff (by omega), shortcut]
            rfl
          omega
  | jump data previous skip ihPrevious ihSkip =>
    have linkedLow := (grownA.of_leadsTo hl).linked
    have linkedHigh := (grownB.of_leadsTo hh).linked
    have heightLow : (jump data previous skip).height = previous.height + 1 := linkedLow.2.1
    obtain ⟨hs, atSkip, -⟩ := @Linked.skip _ skip linkedLow rfl
    rw [meet]
    split
    next hit => exact parts_of_agree linkedHigh ⟨same, hit.symm⟩
    next miss =>
      rcases shortcut : high.skip? with _ | far <;> dsimp only
      · refine parts_none grownA grownB apart hl hh ?_
        intro roots
        have reaches : (jump data previous skip).origin.height ≤ skipHeight high.height := by
          rw [← same, ← linkedLow.skip?_isSome_iff (by omega)]
          rfl
        rw [roots, ← linkedHigh.skip?_isSome_iff (by omega), shortcut] at reaches
        cases reaches
      · obtain ⟨hf, atFar, below, before⟩ := linkedHigh.skip shortcut
        have level : skip.height = far.height := by rw [atSkip, atFar, same]
        split
        next differ =>
          exact parts_skip grownA grownB apart hl hh hs hf level differ
            (ihSkip (hl.trans hs) (hh.trans hf) level)
        next =>
          have step := (linkedHigh.previous before).2
          rw [before]
          exact parts_previous linkedLow linkedHigh same miss rfl before
            (ihPrevious (hl.tail rfl) (hh.tail before) (by omega))

/-! ## The fork of two chains -/

/-- Both chains have an entry with the given hash at the given height. -/
def Shared (a b : Entry) (height : Nat) (hash : UInt256) : Prop :=
  ∃ x ∈ a.path, ∃ y ∈ b.path, x.height = height ∧ x.hash = hash ∧ y.height = height ∧
    y.hash = hash

theorem Shared.symm {a b : Entry} {height : Nat} {hash : UInt256}
    (shared : Shared a b height hash) :
    Shared b a height hash := by
  obtain ⟨x, hx, y, hy, heightX, hashX, heightY, hashY⟩ := shared
  exact ⟨y, hy, x, hx, heightY, hashY, heightX, hashX⟩

/-- At one height, chains share one hash at most. -/
theorem Shared.unique {a b : Entry} {height : Nat} {hash hash' : UInt256} (linked : Linked a)
    (shared : Shared a b height hash) (shared' : Shared a b height hash') : hash = hash' := by
  obtain ⟨x, hx, -, -, heightX, rfl, -⟩ := shared
  obtain ⟨x', hx', -, -, heightX', rfl, -⟩ := shared'
  rw [(mem_path_iff.1 hx).eq_of_height linked (mem_path_iff.1 hx') (heightX.trans heightX'.symm)]

/-- An entry is the highest that two chains share, or there is none. -/
def Joins (a b : Entry) : Option Entry → Prop
  | none => ∀ height hash, ¬Shared a b height hash
  | some e => (e ∈ a.path ∨ e ∈ b.path) ∧ Shared a b e.height e.hash ∧
      ∀ height hash, Shared a b height hash → height ≤ e.height

theorem Joins.symm {a b : Entry} {r : Option Entry} (joins : Joins a b r) : Joins b a r := by
  cases r with
  | none =>
    intro height hash shared
    exact joins height hash shared.symm
  | some e =>
    obtain ⟨mem, shared, highest⟩ := joins
    exact ⟨mem.symm, shared.symm, fun height hash shared => highest height hash shared.symm⟩

/-- The ancestor of the higher entry at the height of the lower one is where to start. -/
theorem joins_of_height_le {a b : Entry} (grownA : Grown a) (grownB : Grown b)
    (apart : TellsApart a b) (lower : a.height ≤ b.height) :
    Joins a b (match b.ancestor? a.height with | none => none | some high => meet a high) := by
  have linkedA := grownA.linked
  have linkedB := grownB.linked
  rcases found : b.ancestor? a.height with _ | high <;> dsimp only
  · -- the second chain ends above the first entry
    rintro height hash ⟨x, hx, y, hy, rfl, -, heightY, -⟩
    have top := linkedA.height_le (mem_path_iff.1 hx)
    have bottom := (linkedB.of_leadsTo (mem_path_iff.1 hy)).origin_height_le
    rw [(mem_path_iff.1 hy).origin_eq] at bottom
    rcases linkedB.ancestor?_eq_none_iff.1 found with above | below <;> omega
  · obtain ⟨hh, level⟩ := linkedB.ancestor?_eq_some_iff.1 found
    have parts := meet_parts grownA grownB apart (LeadsTo.refl a) hh level.symm
    -- whatever is shared is no higher than the first entry
    have reach : ∀ height hash, Shared a b height hash →
        ∃ x y, LeadsTo a x ∧ LeadsTo high y ∧ Agree x y ∧ y.height = height := by
      rintro height hash ⟨x, hx, y, hy, rfl, rfl, heightY, hashY⟩
      have top := linkedA.height_le (mem_path_iff.1 hx)
      exact ⟨x, y, mem_path_iff.1 hx, hh.of_height_le linkedB (mem_path_iff.1 hy) (by omega),
        ⟨heightY.symm, hashY.symm⟩, heightY⟩
    rcases arrived : meet a high with _ | e <;> rw [arrived] at parts
    · intro height hash shared
      obtain ⟨x, y, hx, hy, agree, -⟩ := reach height hash shared
      exact parts x y hx hy agree
    · obtain ⟨he, ⟨x, hx, agree⟩, highest⟩ := parts
      have mem := mem_path_iff.2 (hh.trans he)
      refine ⟨.inr mem, ⟨x, mem_path_iff.2 hx, e, mem, agree.1, agree.2, rfl, rfl⟩, ?_⟩
      intro height hash shared
      obtain ⟨x, y, hx, hy, agree, rfl⟩ := reach height hash shared
      exact highest x y hx hy agree

/-- The search for the fork ends where two grown chains join, whichever of them is the longer. -/
theorem fork?_joins {a b : Entry} (grownA : Grown a) (grownB : Grown b) (apart : TellsApart a b) :
    Joins a b (a.fork? b) := by
  rw [fork?]
  by_cases higher : b.height < a.height
  · simp only [if_pos higher]
    exact (joins_of_height_le grownB grownA apart.symm (Nat.le_of_lt higher)).symm
  · simp only [if_neg higher]
    exact joins_of_height_le grownA grownB apart (Nat.le_of_not_lt higher)

/-- What two chains share does not depend on their order. -/
theorem fork?_comm {a b : Entry} (grownA : Grown a) (grownB : Grown b) (apart : TellsApart a b) :
    (a.fork? b).map (fun e => (e.height, e.hash)) = (b.fork? a).map fun e => (e.height,
      e.hash) := by
  have joins := fork?_joins grownA grownB apart
  have joins' := (fork?_joins grownB grownA apart.symm).symm
  rcases forkAB : a.fork? b with _ | e
  · rw [forkAB] at joins
    rcases forkBA : b.fork? a with _ | e'
    · rfl
    · rw [forkBA] at joins'
      exact absurd joins'.2.1 (joins _ _)
  · rw [forkAB] at joins
    obtain ⟨-, shared, highest⟩ := joins
    rcases forkBA : b.fork? a with _ | e'
    · rw [forkBA] at joins'
      exact absurd shared (joins' _ _)
    · rw [forkBA] at joins'
      obtain ⟨-, shared', highest'⟩ := joins'
      have level : e.height = e'.height := le_antisymm (highest' _ _ shared) (highest _ _ shared')
      rw [← level] at shared'
      simp only [Option.map_some, level, shared.unique grownA.linked shared']

/-- An entry is on the chain of another one if the chains part no lower than at the entry. -/
theorem isAncestorOf_iff_fork? {a b : Entry} (grownA : Grown a) (grownB : Grown b)
    (apart : TellsApart a b) :
    a.isAncestorOf b = true ↔
      ∃ e, a.fork? b = some e ∧ e.height = a.height ∧ e.hash = a.hash := by
  have linkedA := grownA.linked
  have linkedB := grownB.linked
  have joins := fork?_joins grownA grownB apart
  have own : a ∈ a.path := mem_path_iff.2 (LeadsTo.refl a)
  rw [isAncestorOf]
  refine ⟨?_, ?_⟩
  · intro lies
    split at lies
    next x found =>
      -- an entry with this height and hash is shared, so the fork is not below it, nor above
      obtain ⟨hx, level⟩ := linkedB.ancestor?_eq_some_iff.1 found
      have shared : Shared a b a.height a.hash :=
        ⟨a, own, x, mem_path_iff.2 hx, rfl, rfl, level, eq_of_beq lies⟩
      rcases forked : a.fork? b with _ | e <;> rw [forked] at joins
      · exact absurd shared (joins _ _)
      · obtain ⟨-, shared', highest⟩ := joins
        have low := highest _ _ shared
        have high : e.height ≤ a.height := by
          obtain ⟨z, hz, -, -, heightZ, -⟩ := shared'
          rw [← heightZ]
          exact linkedA.height_le (mem_path_iff.1 hz)
        have top : e.height = a.height := le_antisymm high low
        rw [top] at shared'
        exact ⟨e, rfl, top, shared'.unique linkedA shared⟩
    next => cases lies
  · rintro ⟨e, forked, top, hash⟩
    rw [forked] at joins
    -- the fork has the height of the entry, so it is what the other chain has there
    obtain ⟨-, -, y, hy, -, -, heightY, hashY⟩ := joins.2.1
    have found : b.ancestor? a.height = some y :=
      linkedB.ancestor?_eq_some_iff.2 ⟨mem_path_iff.1 hy, heightY.trans top⟩
    simp only [found, hashY, hash, beq_self_eq_true]

/-- **Chains part at the highest entry that they share.** Of any two entries that growth can
build, on roots of any heights, if the hashes on their chains tell headers apart:

* what is found lies on one of the chains, both chains have its hash at its height, and nothing
  higher is shared; nothing is found exactly if the chains share nothing at all;
* the order of the two does not matter;
* one lies on the chain of the other exactly if the chains part at it. -/
theorem fork_of_grown {a b : Entry} (grownA : Grown a) (grownB : Grown b) (apart : TellsApart a b) :
    (∀ e, a.fork? b = some e →
      (e ∈ a.path ∨ e ∈ b.path) ∧ Shared a b e.height e.hash ∧
        ∀ height hash, Shared a b height hash → height ≤ e.height) ∧
    (a.fork? b = none ↔ ∀ height hash, ¬Shared a b height hash) ∧
    (a.fork? b).map (fun e => (e.height, e.hash)) =
      (b.fork? a).map (fun e => (e.height, e.hash)) ∧
    (a.isAncestorOf b = true ↔
      ∃ e, a.fork? b = some e ∧ e.height = a.height ∧ e.hash = a.hash) := by
  have joins := fork?_joins grownA grownB apart
  refine ⟨?_, ?_, fork?_comm grownA grownB apart, isAncestorOf_iff_fork? grownA grownB apart⟩
  · intro e forked
    rw [forked] at joins
    exact joins
  · rcases forked : a.fork? b with _ | e <;> rw [forked] at joins
    · exact iff_of_true rfl joins
    · refine iff_of_false nofun ?_
      intro nothing
      exact nothing _ _ joins.2.1

/-- The header of a branch on top of the entry with a hash. -/
def branchHeader (previous : UInt256) (nonce : UInt32) : Header :=
  .plain { (plainHeader previous).base with nonce }

/-- The name of the first branch, worked out beforehand. -/
def leftHash : UInt256 :=
  Wide.ofNat 0x7ddce3c6590f493afdd48c84f1b24fc9a4b7d3f2f5a969658811517498f71d06

/-- The name of the second branch. -/
def rightHash : UInt256 :=
  Wide.ofNat 0xb7e58c8a16b286b14215a85c50fedcd3a476816bc6f78e277df631ac345b578b

theorem hash_left : (branchHeader trunkHash 1).hash = leftHash := by decide +kernel

theorem hash_right : (branchHeader trunkHash 2).hash = rightHash := by decide +kernel

/-- Two branches on a root at height three part at the root. -/
theorem fork_of_two_branches :
    ∃ trunk left right : Entry,
      root? 0 (plainHeader Wide.zero) 3 = .ok trunk ∧
      trunk.extend? 1 (branchHeader trunkHash 1) = .ok left ∧
      trunk.extend? 2 (branchHeader trunkHash 2) = .ok right ∧
      TellsApart left right ∧ left.fork? right = some trunk ∧
      (∀ height hash, Shared left right height hash → height ≤ 3) ∧
      (right.fork? left).map (fun e => (e.height, e.hash)) = some (3, trunkHash) ∧
      left.isAncestorOf right = false := by
  -- three headers are grown into a tree, with the hashes that were worked out before
  obtain ⟨trunk, planted, grownTrunk, rootTrunk, levelTrunk, headerTrunk⟩ :=
    @exists_root (plainHeader Wide.zero) rfl 0 3
  have levelTrunk : trunk.height = 3 := levelTrunk
  have hashTrunk : trunk.hash = trunkHash := by rw [grownTrunk.hash_eq, headerTrunk, hash_trunk]
  have room : trunk.height < 0xffffffff := by omega
  obtain ⟨left, grew, grownLeft, beforeLeft, headerLeft⟩ :=
    @Grown.exists_extend trunk (branchHeader trunkHash 1) grownTrunk hashTrunk.symm room 1
  obtain ⟨right, grew', grownRight, beforeRight, headerRight⟩ :=
    @Grown.exists_extend trunk (branchHeader trunkHash 2) grownTrunk hashTrunk.symm room 2
  obtain ⟨-, -, levelLeft, -⟩ := grownLeft.above beforeLeft
  obtain ⟨-, -, levelRight, -⟩ := grownRight.above beforeRight
  have tellsTrunk : trunk.header.hash = trunkHash := by rw [headerTrunk, hash_trunk]
  have tellsLeft : left.header.hash = leftHash := by rw [headerLeft, hash_left]
  have tellsRight : right.header.hash = rightHash := by rw [headerRight, hash_right]
  have pathLeft : left.path = [left, trunk] := by
    rw [path_of_previous beforeLeft, path_of_root rootTrunk]
  have pathRight : right.path = [right, trunk] := by
    rw [path_of_previous beforeRight, path_of_root rootTrunk]
  have differ : leftHash ≠ rightHash ∧ leftHash ≠ trunkHash ∧ trunkHash ≠ rightHash := by
    decide
  have nonzero : leftHash ≠ Wide.zero ∧ rightHash ≠ Wide.zero ∧
      trunkHash ≠ Wide.zero := by decide
  -- four hashes that differ have no collision among them
  have apart : TellsApart left right := by
    simp [TellsApart, pathLeft, pathRight, tellsLeft, tellsRight, tellsTrunk, differ, nonzero]
  obtain ⟨joins, nothing, comm, order⟩ := fork_of_grown grownLeft grownRight apart
  have shared : Shared left right 3 trunkHash := by
    refine ⟨trunk, ?_, trunk, ?_, levelTrunk, hashTrunk, levelTrunk, hashTrunk⟩
    · simp [pathLeft]
    · simp [pathRight]
  -- of the pairs of entries on both chains, all but the one of the tips are at height three
  have highest : ∀ height hash, Shared left right height hash → height ≤ 3 := by
    rintro height hash ⟨x, hx, y, hy, rfl, rfl, level, same⟩
    simp only [pathLeft, List.mem_cons, List.not_mem_nil, or_false] at hx
    simp only [pathRight, List.mem_cons, List.not_mem_nil, or_false] at hy
    rcases hx with rfl | rfl <;> rcases hy with rfl | rfl
    · rw [grownLeft.hash_eq, grownRight.hash_eq, tellsLeft, tellsRight] at same
      exact absurd same.symm differ.1
    · omega
    · omega
    · exact levelTrunk.le
  -- the fork is on one of the chains, and as high as what both share
  have forked : left.fork? right = some trunk := by
    rcases forked : left.fork? right with _ | e
    · exact absurd shared (nothing.1 forked 3 trunkHash)
    · obtain ⟨mem, sharedE, highestE⟩ := joins e forked
      have low := highestE _ _ shared
      have high := highest _ _ sharedE
      simp only [pathLeft, pathRight, List.mem_cons, List.not_mem_nil, or_false] at mem
      rcases mem with (rfl | rfl) | rfl | rfl
      · omega
      · rfl
      · omega
      · rfl
  refine ⟨trunk, left, right, planted, grew, grew', apart, forked, highest, ?_, ?_⟩
  · rw [← comm, forked, Option.map_some, levelTrunk, hashTrunk]
  · rw [Bool.eq_false_iff, Ne, order]
    rintro ⟨e, found, above, -⟩
    rw [forked] at found
    obtain rfl := Option.some.inj found
    omega

end BlockRules.Entry
