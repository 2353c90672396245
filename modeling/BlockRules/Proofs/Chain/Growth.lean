import Mathlib
import BlockRules.Proofs.Chain.Ancestors

/-!
# What growth builds

The two ways to make an entry fix everything it holds: `root?_inv` and `extend?_inv` say
what, and the rest of this module reads it off an entry of which no more is known than that
it was built.

* **names** — an entry has the hash of its header, and the header names the entry before, or
  nothing at a root (`Grown.hash_eq`, `Grown.at_root`, `Grown.above`);
* **sums** — heights count the entries and works add up, one step at a time
  (`Grown.at_root`, `Grown.above`);
* **paths** — the entries of a path are those the links lead to (`mem_path_iff`), and all of
  them were built (`Grown.of_leadsTo`).
-/

namespace BlockRules.Entry

/-! ## Paths -/

/-- Nothing comes before the root of a chain. -/
theorem previous?_origin (e : Entry) : e.origin.previous? = none := by
  induction e with
  | root data => rfl
  | link data previous ih => exact ih
  | jump data previous skip ih _ => exact ih

theorem leadsTo_origin (e : Entry) : LeadsTo e e.origin := by
  induction e with
  | root data => exact LeadsTo.refl _
  | link data previous ih => exact LeadsTo.head rfl ih
  | jump data previous skip ih _ => exact LeadsTo.head rfl ih

/-- An entry without one before is the root. -/
theorem origin_eq_self {e : Entry} (root : e.previous? = none) : e.origin = e := by
  cases e with
  | root data => rfl
  | link data previous => cases root
  | jump data previous skip => cases root

/-- The links lead to the entry itself and to what they lead to from the one before. -/
theorem leadsTo_iff {e x : Entry} :
    LeadsTo e x ↔ x = e ∨ ∃ previous, e.previous? = some previous ∧ LeadsTo previous x :=
  Relation.ReflTransGen.cases_head_iff.trans (or_congr_left eq_comm)

/-- From a root the links lead nowhere else. -/
theorem LeadsTo.eq_of_root {e x : Entry} (leads : LeadsTo e x) (root : e.previous? = none) :
    x = e := by
  rcases leadsTo_iff.1 leads with rfl | ⟨previous, before, -⟩
  · rfl
  · rw [root] at before
    cases before

theorem path_of_root {e : Entry} (root : e.previous? = none) : e.path = [e] := by
  cases e with
  | root data => rfl
  | link data previous => cases root
  | jump data previous skip => cases root

theorem path_of_previous {e previous : Entry} (before : e.previous? = some previous) :
    e.path = e :: previous.path := by
  cases e with
  | root data => cases before
  | link data p =>
    obtain rfl := Option.some.inj before
    rfl
  | jump data p skip =>
    obtain rfl := Option.some.inj before
    rfl

/-- The path of an entry holds exactly the entries that it leads to. -/
theorem mem_path_iff {e x : Entry} : x ∈ e.path ↔ LeadsTo e x := by
  induction e with
  | root data =>
    rw [leadsTo_iff]
    simp [path, previous?]
  | link data previous ih =>
    rw [leadsTo_iff]
    simp [path, previous?, ih]
  | jump data previous skip ih _ =>
    rw [leadsTo_iff]
    simp [path, previous?, ih]

/-- Of the entries of a chain, the higher one leads to the lower one. -/
theorem LeadsTo.of_height_le {e a b : Entry} (linked : Linked e) (ha : LeadsTo e a)
    (hb : LeadsTo e b) (lower : b.height ≤ a.height) : LeadsTo a b := by
  rcases ha.total hb with hab | hba
  · exact hab
  · have higher := (linked.of_leadsTo hb).height_le hba
    rw [hb.eq_of_height linked ha (le_antisymm lower higher)]
    exact LeadsTo.refl _

/-! ## What an entry holds -/

/-- What a root is made of. -/
theorem root?_inv {id : Nat} {header : Header} {height : UInt32} {e : Entry}
    (built : root? id header height = .ok e) :
    header.base.previous.isZero = true ∧
      e = root { id, header, hash := header.hash, height := height.toNat,
                 work := header.base.bits.blockProof } := by
  rw [root?] at built
  split at built
  · next nameless => exact ⟨nameless, (Except.ok.inj built).symm⟩
  · cases built

/-- What an entry on top of another one is made of. -/
theorem extend?_inv {previous e : Entry} {id : Nat} {header : Header}
    (built : previous.extend? id header = .ok e) :
    header.base.previous = previous.hash ∧ previous.height < 0xffffffff ∧
      e.previous? = some previous ∧
      e.data = { id, header, hash := header.hash, height := previous.height + 1,
                 work := previous.work + header.base.bits.blockProof } := by
  rw [extend?] at built
  split at built
  · cases built
  · next named =>
    split at built
    · cases built
    · next room =>
      refine ⟨of_not_not named, by omega, ?_⟩
      simp only at built
      split at built
      · obtain rfl := Except.ok.inj built
        exact ⟨rfl, rfl⟩
      · obtain rfl := Except.ok.inj built
        exact ⟨rfl, rfl⟩

/-- An entry has the hash of its header. -/
theorem Grown.hash_eq {e : Entry} (grown : Grown e) : e.hash = e.header.hash := by
  cases grown with
  | root built =>
    obtain ⟨-, rfl⟩ := root?_inv built
    rfl
  | extend _ built =>
    obtain ⟨-, -, -, holds⟩ := extend?_inv built
    rw [hash, header, holds]

/-- Heights are words. -/
theorem Grown.height_lt {e : Entry} (grown : Grown e) : e.height < 2 ^ 32 := by
  cases grown with
  | @root _ _ height _ built =>
    obtain ⟨-, rfl⟩ := root?_inv built
    exact height.toNat_lt
  | @extend previous _ _ _ _ built =>
    obtain ⟨-, room, -, holds⟩ := extend?_inv built
    have step : e.height = previous.height + 1 := congrArg EntryData.height holds
    omega

/-- The header of a root names nothing, and the work is its own. -/
theorem Grown.at_root {e : Entry} (grown : Grown e) (first : e.previous? = none) :
    e.header.base.previous.isZero = true ∧ e.work = e.header.base.bits.blockProof := by
  cases grown with
  | root built =>
    obtain ⟨nameless, rfl⟩ := root?_inv built
    exact ⟨nameless, rfl⟩
  | extend _ built =>
    obtain ⟨-, -, before, -⟩ := extend?_inv built
    rw [first] at before
    cases before

/-- The header of any other entry names the one before, which was built too; the height goes up
by one, and the work by that of the header. -/
theorem Grown.above {e previous : Entry} (grown : Grown e) (before : e.previous? = some previous) :
    Grown previous ∧ e.header.base.previous = previous.hash ∧ e.height = previous.height + 1 ∧
      e.work = previous.work + e.header.base.bits.blockProof := by
  cases grown with
  | root built =>
    obtain ⟨-, rfl⟩ := root?_inv built
    cases before
  | @extend _ _ header _ below built =>
    obtain ⟨named, -, before', holds⟩ := extend?_inv built
    rw [before] at before'
    obtain rfl := Option.some.inj before'
    have own : e.header = header := congrArg EntryData.header holds
    rw [own]
    exact ⟨below, named, congrArg EntryData.height holds, congrArg EntryData.work holds⟩

/-- What holds of roots and goes up from every entry to the next one holds of all that growth
builds. -/
@[elab_as_elim]
theorem Grown.upwards {motive : (e : Entry) → Grown e → Prop}
    (root : ∀ (e : Entry) (grown : Grown e), e.previous? = none → motive e grown)
    (above : ∀ (e previous : Entry) (grown : Grown e) (_ : e.previous? = some previous)
      (below : Grown previous), motive previous below → motive e grown)
    (e : Entry) (grown : Grown e) : motive e grown := by
  induction grown with
  | @root _ _ _ e built =>
    refine root e (.root built) ?_
    obtain ⟨-, rfl⟩ := root?_inv built
    rfl
  | @extend previous _ _ e below built ih =>
    exact above e previous (.extend below built) (extend?_inv built).2.2.1 below ih

theorem Grown.of_leadsTo {e x : Entry} (grown : Grown e) (leads : LeadsTo e x) : Grown x := by
  induction leads with
  | refl => exact grown
  | tail _ before ih => exact (ih.above before).1

/-! ## What can be built -/

/-- A header that names nothing makes a root at any height. -/
theorem exists_root {header : Header} (nameless : header.base.previous.isZero = true) (id : Nat)
    (height : UInt32) :
    ∃ e, root? id header height = .ok e ∧ Grown e ∧ e.previous? = none ∧
      e.height = height.toNat ∧ e.header = header := by
  obtain ⟨e, built⟩ : ∃ e, root? id header height = .ok e := ⟨_, if_pos nameless⟩
  have holds := (root?_inv built).2
  exact ⟨e, built, .root built, by rw [holds]; rfl, by rw [holds]; rfl, by rw [holds]; rfl⟩

/-- A header that names an entry goes on top of it, as long as heights last. -/
theorem Grown.exists_extend {previous : Entry} {header : Header} (grown : Grown previous)
    (names : header.base.previous = previous.hash) (room : previous.height < 0xffffffff)
    (id : Nat) :
    ∃ e, previous.extend? id header = .ok e ∧ Grown e ∧ e.previous? = some previous ∧
      e.header = header := by
  obtain ⟨e, built, before, -⟩ := @extend?_of_names previous id header names room
  exact ⟨e, built, .extend grown built, before,
    congrArg EntryData.header (extend?_inv built).2.2.2⟩

/-- There are chains of every length on a root at any height, as long as heights last. -/
theorem exists_grown (root : UInt32) (length : Nat) (room : root.toNat + length < 2 ^ 32) :
    ∃ e, Grown e ∧ e.origin.height = root.toNat ∧ e.height = root.toNat + length := by
  induction length with
  | zero =>
    obtain ⟨e, -, grown, first, level, -⟩ := @exists_root (plainHeader Wide.zero) rfl 0 root
    exact ⟨e, grown, by rw [origin_eq_self first, level], level⟩
  | succ length ih =>
    obtain ⟨below, grownBelow, bottom, level⟩ := ih (by omega)
    obtain ⟨e, -, grown, before, -⟩ :=
      @Grown.exists_extend below (plainHeader below.hash) grownBelow rfl (by omega) 0
    refine ⟨e, grown, ?_, ?_⟩
    · rw [← origin_of_previous before, bottom]
    · rw [(grown.above before).2.2.1, level, Nat.add_assoc]

/-- The hash of the plain header that names nothing. -/
def trunkHash : UInt256 :=
  Wide.ofNat 0x6cd4581c9488cf3cc8c3f3e99916c30481cc9065218af339e06f3cc4cd138d3d

theorem hash_trunk : (plainHeader Wide.zero).hash = trunkHash := by decide +kernel

end BlockRules.Entry
