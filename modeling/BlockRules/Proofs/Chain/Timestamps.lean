import Mathlib
import BlockRules.Proofs.Chain.Work

/-!
# Difficulty is a function of times

The target that a block must state is derived from the blocks before it. This module says what of
them it is derived from: heights, times and targets, and nothing else that headers hold. On a valid
chain the targets are themselves derived, so that in the end the times fix all of them, and the work
with them.

* **what is seen** — `Entry.history`: height, time and target (`Moment`) of an entry and of all
  entries before it;
* **one step** — the rule for the next target is a function of the history (`nextBits_congr`). The
  lookup of the block that starts a period goes by height (`exists_ancestor_congr`), and the way
  back to the last regular target stops by height and target (`lastRegularBits_congr`);
* **two runs** — two valid chains with the same times have the same history, by induction up both
  chains at once (`ValidFromZero.history_eq`);
* **work** — the sum over the history (`Grown.work_eq_sum`).
-/

namespace BlockRules

/-- What the rule for the next target looks at in a block. -/
structure Moment where
  height : Nat
  time : UInt32
  bits : Target
  deriving DecidableEq

namespace Entry

variable {headers : Headers} {params : Params} {interval : Nat} {newTime : UInt32} {target : Target}
  {e e' x x' last last' previous : Entry}

/-- What the rule for the next target can see of an entry. -/
def moment (headers : Headers) (e : Entry) : Moment :=
  ⟨e.height, e.time headers, e.bits headers⟩

/-- What the rule for the next target can see of a chain, the last block first. -/
def history (headers : Headers) (e : Entry) : List Moment := e.path.map (moment headers)

theorem history_of_root (first : e.previous? = none) : e.history headers = [e.moment headers] := by
  rw [history, path_of_root first, List.map_singleton]

theorem history_of_previous (before : e.previous? = some previous) :
    e.history headers = e.moment headers :: previous.history headers := by
  rw [history, path_of_previous before, List.map_cons, history]

theorem history_ne_nil (e : Entry) : e.history headers ≠ [] := by
  rcases before : e.previous? with _ | previous
  · rw [history_of_root before]
    exact List.cons_ne_nil _ _
  · rw [history_of_previous before]
    exact List.cons_ne_nil _ _

/-- Chains with the same history end alike, and go on alike below, or both end there. -/
theorem history_cases (same : e.history headers = e'.history headers) :
    e.moment headers = e'.moment headers ∧
      (e.previous? = none ∧ e'.previous? = none ∨
        ∃ p p', e.previous? = some p ∧ e'.previous? = some p' ∧
          p.history headers = p'.history headers) := by
  rcases before : e.previous? with _ | p <;> rcases before' : e'.previous? with _ | p'
  · rw [history_of_root before, history_of_root before'] at same
    exact ⟨List.singleton_inj.1 same, .inl ⟨rfl, rfl⟩⟩
  · rw [history_of_root before, history_of_previous before'] at same
    exact absurd (List.cons.inj same).2.symm (history_ne_nil p')
  · rw [history_of_previous before, history_of_root before'] at same
    exact absurd (List.cons.inj same).2 (history_ne_nil p)
  · rw [history_of_previous before, history_of_previous before'] at same
    obtain ⟨own, below⟩ := List.cons.inj same
    exact ⟨own, .inr ⟨p, p', rfl, rfl, below⟩⟩

/-! ## One step -/

theorem lastRegularBits_of_root {limit : Target} (first : e.previous? = none) :
    lastRegularBits headers limit interval e = e.bits headers := by
  cases e with
  | root data => rfl
  | link data p => cases first
  | jump data p skip => cases first

theorem lastRegularBits_of_previous {limit : Target} (before : e.previous? = some previous) :
    lastRegularBits headers limit interval e =
      if e.height % interval = 0 ∨ e.bits headers ≠ limit then e.bits headers
      else lastRegularBits headers limit interval previous := by
  cases e with
  | root data => cases before
  | link data p =>
    obtain rfl := Option.some.inj before
    rfl
  | jump data p skip =>
    obtain rfl := Option.some.inj before
    rfl

/-- Going back to the last regular target looks at nothing but the history. -/
theorem lastRegularBits_congr {limit : Target} (grown : Grown e)
    (same : e.history headers = e'.history headers) :
    lastRegularBits headers limit interval e = lastRegularBits headers limit interval e' := by
  induction e, grown using Grown.upwards generalizing e' with
  | root e grown first =>
    obtain ⟨own, ⟨-, first'⟩ | ⟨p, p', before, -⟩⟩ := history_cases same
    · rw [lastRegularBits_of_root first, lastRegularBits_of_root first']
      exact congrArg Moment.bits own
    · rw [first] at before
      cases before
  | above e previous grown before below ih =>
    obtain ⟨own, ⟨first, -⟩ | ⟨p, p', before', above', rest⟩⟩ := history_cases same
    · rw [before] at first
      cases first
    · rw [before] at before'
      obtain rfl := Option.some.inj before'
      have height : e.height = e'.height := congrArg Moment.height own
      have bits : e.bits headers = e'.bits headers := congrArg Moment.bits own
      rw [lastRegularBits_of_previous before, lastRegularBits_of_previous above', height,
        bits, ih rest]

/-- What is found at a height on one of the chains looks like what is found there on the other
one. -/
theorem exists_ancestor_congr (grown : Grown last) (grown' : Grown last')
    (same : last.history headers = last'.history headers) {height : Nat} {first : Entry}
    (found : last.ancestor? height = some first) :
    ∃ first', last'.ancestor? height = some first' ∧
      first'.moment headers = first.moment headers := by
  obtain ⟨leads, level⟩ := grown.linked.ancestor?_eq_some_iff.1 found
  have seen : first.moment headers ∈ last'.history headers :=
    same ▸ List.mem_map_of_mem (mem_path_iff.2 leads)
  obtain ⟨first', mem, alike⟩ := List.mem_map.1 seen
  have level' : first'.height = height := (congrArg Moment.height alike).trans level
  exact ⟨first', grown'.linked.ancestor?_eq_some_iff.2 ⟨mem_path_iff.1 mem, level'⟩, alike⟩

/-- Within a period the required target depends on heights, times and bits only. -/
theorem bitsWithinPeriod_congr (grown : Grown last)
    (same : last.history headers = last'.history headers) :
    bitsWithinPeriod headers params interval last newTime =
      bitsWithinPeriod headers params interval last' newTime := by
  have own := (history_cases same).1
  have time : last.time headers = last'.time headers := congrArg Moment.time own
  have bits : last.bits headers = last'.bits headers := congrArg Moment.bits own
  rw [bitsWithinPeriod, bitsWithinPeriod, time, bits, lastRegularBits_congr grown same]

theorem bitsOfNewPeriod_congr (grown : Grown last) (grown' : Grown last')
    (same : last.history headers = last'.history headers)
    (given : bitsOfNewPeriod headers params interval last = .ok target) :
    bitsOfNewPeriod headers params interval last' = .ok target := by
  have own := (history_cases same).1
  have height : last.height = last'.height := congrArg Moment.height own
  have time : last.time headers = last'.time headers := congrArg Moment.time own
  have bits : last.bits headers = last'.bits headers := congrArg Moment.bits own
  rw [bitsOfNewPeriod] at given
  split at given
  next => cases given
  next first found =>
    obtain ⟨first', found', alike⟩ := exists_ancestor_congr grown grown' same found
    have start : first'.time headers = first.time headers := congrArg Moment.time alike
    rw [height] at found'
    rw [bitsOfNewPeriod, found']
    dsimp only
    rw [start, ← time, ← bits]
    exact given

/-- **One step.** The target of the next block is a function of its time and of the history below
it. -/
theorem nextBits_congr (grown : Grown last) (grown' : Grown last')
    (same : last.history headers = last'.history headers)
    (given : nextBits headers params (some last) newTime = .ok target) :
    nextBits headers params (some last') newTime = .ok target := by
  have height : last.height = last'.height := congrArg Moment.height (history_cases same).1
  rw [nextBits] at given ⊢
  split at given
  next => cases given
  next => cases given
  next interval _ periods =>
    rw [height, bitsWithinPeriod_congr grown same] at given
    split at given
    next starts =>
      rw [if_pos starts]
      exact bitsOfNewPeriod_congr grown grown' same given
    next inside =>
      rw [if_neg inside]
      exact given

/-! ## Two runs -/

/-- A chain of plain headers from height zero up, valid block by block. -/
structure ValidFromZero (params : Params) (e : Entry) : Prop where
  grown : Grown e
  rooted : e.origin.height = 0
  plain : ∀ x ∈ e.path, x.header.isProven = false
  valid : ∀ x ∈ e.path, x.isValid header params = .ok true

namespace ValidFromZero

theorem of_mem (chain : ValidFromZero params e) (mem : x ∈ e.path) : ValidFromZero params x := by
  have leads := mem_path_iff.1 mem
  have below : ∀ y ∈ x.path, y ∈ e.path :=
    fun y hy => mem_path_iff.2 (leads.trans (mem_path_iff.1 hy))
  refine ⟨chain.grown.of_leadsTo leads, ?_, fun y hy => chain.plain y (below y hy),
    fun y hy => chain.valid y (below y hy)⟩
  rw [leads.origin_eq]
  exact chain.rooted

/-- Height zero is that of the root. -/
theorem previous?_eq_none_iff (chain : ValidFromZero params e) : e.previous? = none ↔
    e.height = 0 := by
  constructor
  · intro first
    rw [← origin_eq_self first]
    exact chain.rooted
  · intro bottom
    rcases before : e.previous? with _ | previous
    · rfl
    · have level := (chain.grown.above before).2.2.1
      omega

/-- A first block that is valid. -/
theorem of_root (grown : Grown e) (first : e.previous? = none) (bottom : e.height = 0)
    (plain : e.header.isProven = false) (fits : e.genesisFits params = true)
    (met : (e.bits header).isMetBy e.hash = true) (limit : e.bits header = params.powLimit) :
    ValidFromZero params e := by
  have valid : e.isValid header params = .ok true := by
    refine (isValid_iff grown plain).2 ⟨fits, met, (bitsFit_iff fun _ => bottom).2 ?_⟩
    rw [requiredBits, if_pos bottom, limit]
  refine ⟨grown, by rw [origin_eq_self first, bottom], ?_, ?_⟩ <;>
    rw [path_of_root first, List.forall_mem_singleton]
  · exact plain
  · exact valid

/-- A valid block on top of a valid chain. -/
theorem above (chain : ValidFromZero params previous) (grown : Grown e)
    (before : e.previous? = some previous) (plain : e.header.isProven = false)
    (met : (e.bits header).isMetBy e.hash = true)
    (next : nextBits header params (some previous) (e.time header) = .ok (e.bits header)) :
    ValidFromZero params e := by
  have level := (grown.above before).2.2.1
  have higher : ¬ e.height = 0 := by omega
  have valid : e.isValid header params = .ok true := by
    refine (isValid_iff grown plain).2 ⟨by simp [genesisFits, higher], met, ?_⟩
    rw [bitsFit_iff (by simp [before]), requiredBits, if_neg higher, before]
    exact next
  refine ⟨grown, by rw [← origin_of_previous before, chain.rooted], ?_, ?_⟩ <;>
    rw [path_of_previous before, List.forall_mem_cons]
  · exact ⟨plain, chain.plain⟩
  · exact ⟨valid, chain.valid⟩

/-- The target is the one that the rule requires. -/
theorem requiredBits_eq (chain : ValidFromZero params e) :
    e.requiredBits header params = .ok (e.bits header) := by
  have own : e ∈ e.path := mem_path_iff.2 (LeadsTo.refl e)
  have fits := ((isValid_iff chain.grown (chain.plain e own)).1 (chain.valid e own)).2.2
  exact (bitsFit_iff chain.previous?_eq_none_iff.1).1 fits

/-- **Two runs.** Chains of one height whose times agree have the same history: the first targets
are the limit, and every later one is required by the history below it. -/
theorem history_eq (chain : ValidFromZero params e) (chain' : ValidFromZero params e')
    (level : e.height = e'.height)
    (times : ∀ x ∈ e.path, ∀ x' ∈ e'.path, x.height = x'.height →
      x.time header = x'.time header) :
    e.history header = e'.history header := by
  -- by induction up the first chain; the second one has the same height and follows it down
  have time : e.time header = e'.time header :=
    times e (mem_path_iff.2 (LeadsTo.refl e)) e' (mem_path_iff.2 (LeadsTo.refl e')) level
  have required := chain.requiredBits_eq
  have required' := chain'.requiredBits_eq
  induction e, chain.grown using Grown.upwards generalizing e' with
  | root e grown first =>
    have bottom := chain.previous?_eq_none_iff.1 first
    have bottom' : e'.height = 0 := level.symm.trans bottom
    rw [requiredBits, if_pos bottom] at required
    rw [requiredBits, if_pos bottom'] at required'
    -- at the bottom both targets are the limit
    have bits : e.bits header = e'.bits header :=
      (Except.ok.inj required).symm.trans (Except.ok.inj required')
    rw [history_of_root first, history_of_root (chain'.previous?_eq_none_iff.2 bottom'),
      moment, moment, level, time, bits]
  | above e previous grown before below ih =>
    have higher : ¬ e.height = 0 := by
      rw [← chain.previous?_eq_none_iff, before]
      exact Option.some_ne_none previous
    have higher' : ¬ e'.height = 0 := level ▸ higher
    obtain ⟨previous', before'⟩ : ∃ previous', e'.previous? = some previous' :=
      Option.ne_none_iff_exists'.1 (mt chain'.previous?_eq_none_iff.1 higher')
    have mem : ∀ y ∈ previous.path, y ∈ e.path := by
      rw [path_of_previous before]
      exact fun y => List.mem_cons_of_mem e
    have mem' : ∀ y ∈ previous'.path, y ∈ e'.path := by
      rw [path_of_previous before']
      exact fun y => List.mem_cons_of_mem e'
    have own := mem previous (mem_path_iff.2 (LeadsTo.refl previous))
    have own' := mem' previous' (mem_path_iff.2 (LeadsTo.refl previous'))
    have lower : previous.height = previous'.height := by
      have step := (chain.grown.above before).2.2.1
      have step' := (chain'.grown.above before').2.2.1
      omega
    have under := ih (chain.of_mem own) (chain'.of_mem own') lower
      (fun x hx x' hx' => times x (mem x hx) x' (mem' x' hx')) (times _ own _ own' lower)
      (chain.of_mem own).requiredBits_eq (chain'.of_mem own').requiredBits_eq
    rw [requiredBits, if_neg higher, before] at required
    rw [requiredBits, if_neg higher', before', ← time] at required'
    -- the rule for the next target has nothing to look at but the history below
    have next := nextBits_congr below (chain'.of_mem own').grown under required
    have bits : e.bits header = e'.bits header := Except.ok.inj (next.symm.trans required')
    rw [history_of_previous before, history_of_previous before', under, moment, moment,
      level, time, bits]

end ValidFromZero

/-! ## Work -/

/-- The work of a chain is the sum of what its targets are worth. -/
theorem Grown.work_eq_sum (grown : Grown e) :
    e.work = ((e.history header).map fun m => m.bits.blockProof).sum := by
  induction e, grown using Grown.upwards with
  | root e grown first =>
    rw [history_of_root first, (grown.at_root first).2]
    rfl
  | above e previous grown before below ih =>
    rw [history_of_previous before, (grown.above before).2.2.2, ih, List.map_cons, List.sum_cons,
      Nat.add_comm]
    rfl

/-- **Difficulty is a function of times.** On two chains of plain headers from height zero up, both
valid block by block, whose times agree at every height, targets and work agree at every height as
well, whatever else the headers hold. This takes no check of the parameters, and the chains need not
be of one length. -/
theorem difficulty_of_times (chain : ValidFromZero params e) (chain' : ValidFromZero params e')
    (times : ∀ x ∈ e.path, ∀ x' ∈ e'.path, x.height = x'.height →
      x.time header = x'.time header) :
    ∀ x ∈ e.path, ∀ x' ∈ e'.path, x.height = x'.height →
      x.bits header = x'.bits header ∧ x.work = x'.work := by
  intro x mem x' mem' level
  have leads := mem_path_iff.1 mem
  have leads' := mem_path_iff.1 mem'
  have same : x.history header = x'.history header := by
    refine (chain.of_mem mem).history_eq (chain'.of_mem mem') level ?_
    intro y hy y' hy'
    exact times y (mem_path_iff.2 (leads.trans (mem_path_iff.1 hy))) y'
      (mem_path_iff.2 (leads'.trans (mem_path_iff.1 hy')))
  refine ⟨congrArg Moment.bits (history_cases same).1, ?_⟩
  rw [(chain.of_mem mem).grown.work_eq_sum, (chain'.of_mem mem').grown.work_eq_sum, same]

/-- A header at the same place and time as `hastyHeader`, with another version, summary and
nonce. -/
def otherHastyHeader : Header :=
  .plain
    { version := 2, previous := trunkHash, merkleRoot := Wide.one, time := 0,
      bits := ⟨0x201fffff⟩
      nonce := 9 }

/-- The name of this header, worked out beforehand. -/
def otherHastyHash : UInt256 :=
  Wide.ofNat 0x1feec244338ad7d97692b492a0b8ec6ad1227d0b1d36ccf3aa0d6bc3d67e33b6

theorem hash_otherHasty : otherHastyHeader.hash = otherHastyHash := by decide +kernel

/-- Two blocks on one root, found at the same time: both are four times as hard as the root. -/
theorem two_tips_of_one_time :
    ∃ a b : Entry, ValidFromZero hasty a ∧ ValidFromZero hasty b ∧
      (∀ x ∈ a.path, ∀ x' ∈ b.path, x.height = x'.height →
        x.time header = x'.time header) ∧
      a.height = b.height ∧ a.hash ≠ b.hash ∧ a.bits header = ⟨0x201fffff⟩ ∧
      a.bits header = b.bits header ∧ a.work = b.work := by
  obtain ⟨trunk, planted, grown, first, bottom, headerTrunk⟩ :=
    @exists_root (plainHeader Wide.zero) rfl 0 0
  have bottom : trunk.height = 0 := bottom
  have hashTrunk : trunk.hash = trunkHash := by rw [grown.hash_eq, headerTrunk, hash_trunk]
  -- no time has passed in a period of one block, so the target goes down to a quarter
  have next : nextBits header hasty (some trunk) 0 = .ok ⟨0x201fffff⟩ := by
    rw [(root?_inv planted).2]
    decide +kernel
  have chain : ValidFromZero hasty trunk := by
    refine .of_root grown first bottom (by rw [headerTrunk]; rfl) ?_ ?_ ?_
    · simp [genesisFits, first, hasty]
    · rw [bits, headerTrunk, hashTrunk]
      decide
    · rw [bits, headerTrunk]
      rfl
  -- any header that names the root, states this target and meets it is a valid block on top
  have tip :
    ∀ h : BlockHeader, h.previous = trunkHash → h.time = 0 → h.bits = ⟨0x201fffff⟩ →
      h.bits.isMetBy h.hash = true →
      ∃ e, ValidFromZero hasty e ∧ e.path = [e, trunk] ∧ e.height = 1 ∧
        e.header = .plain h := by
    intro h names time bits met
    obtain ⟨e, -, grownTip, before, header⟩ :=
      @Grown.exists_extend trunk (.plain h) grown (names.trans hashTrunk.symm) (by omega) 0
    have level : e.height = 1 := by rw [(grownTip.above before).2.2.1, bottom]
    have path : e.path = [e, trunk] := by rw [path_of_previous before, path_of_root first]
    refine ⟨e, chain.above grownTip before (by rw [header]; rfl) ?_ ?_, path, level, header⟩
    · rw [Entry.bits, grownTip.hash_eq, header]
      exact met
    · rw [Entry.bits, Entry.time, header]
      show nextBits _ hasty (some trunk) h.time = .ok h.bits
      rw [time, bits, next]
  have met : (⟨0x201fffff⟩ : Target).isMetBy hastyHeader.hash = true := by
    rw [hash_hasty]
    decide
  have met' : (⟨0x201fffff⟩ : Target).isMetBy otherHastyHeader.hash = true := by
    rw [hash_otherHasty]
    decide
  obtain ⟨a, chainA, pathA, levelA, headerA⟩ := tip hastyHeader.base rfl rfl rfl met
  obtain ⟨b, chainB, pathB, levelB, headerB⟩ := tip otherHastyHeader.base rfl rfl rfl met'
  have times : ∀ x ∈ a.path, ∀ x' ∈ b.path, x.height = x'.height →
      x.time header = x'.time header := by
    have atZero : ∀ x ∈ a.path ++ b.path, x.time header = 0 := by
      simp [pathA, pathB, Entry.time, headerA, headerB, headerTrunk, Header.base, hastyHeader,
        otherHastyHeader, plainHeader]
    intro x mem x' mem' _
    rw [atZero x (List.mem_append_left _ mem), atZero x' (List.mem_append_right _ mem')]
  have level : a.height = b.height := levelA.trans levelB.symm
  have apart : a.hash ≠ b.hash := by
    rw [chainA.grown.hash_eq, chainB.grown.hash_eq, headerA, headerB]
    show hastyHeader.hash ≠ otherHastyHeader.hash
    rw [hash_hasty, hash_otherHasty]
    decide
  have own : a ∈ a.path := mem_path_iff.2 (LeadsTo.refl a)
  have own' : b ∈ b.path := mem_path_iff.2 (LeadsTo.refl b)
  refine ⟨a, b, chainA, chainB, times, level, apart, ?_,
    difficulty_of_times chainA chainB times a own b own' level⟩
  rw [Entry.bits, headerA]
  rfl

end Entry

end BlockRules
