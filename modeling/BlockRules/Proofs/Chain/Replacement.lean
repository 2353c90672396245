import Mathlib
import BlockRules.Chain.Forest
import BlockRules.Proofs.Chain.Faults
import BlockRules.Proofs.Chain.Payload
import BlockRules.Wide.Lemmas

/-!
# Replacing headers

The header of an entry can be replaced while other chains go through the entry. This module says
what that changes and what it leaves alone.

* **forests** — `Forest.Grown`: entries are planted, grown on others of the forest, and given new
  headers. Such a forest tells its entries apart by their numbers and holds whatever their links
  lead to (`Forest.Grown.sound`);
* **links** — `Forest.SameLinks`: nothing that follows links only tells two forests apart
  (`sameLinks_replace`);
* **validity** — a header that does not belong at its place makes its entry invalid
  (`Entry.isValid_of_misplaced`);
* **payloads** — a header with the same base changes nothing that is computed from headers
  (`Forest.Grown.same_payloads`).
-/

namespace BlockRules

/-! ## Headers out of place -/

/-- On a valid network with periods below `2 ^ 61` seconds, the machine words of the difficulty rule
hold what it comes to. -/
theorem Params.fitsWords_of_short {params : Params} (valid : params.validate = .ok ())
    (short : params.targetTimespan.toNat < 2 ^ 61) : params.FitsWords where
  timespan := .inr (.inl short)
  gap := by
    obtain ⟨-, order, -⟩ := Params.validate_eq_ok_iff.1 valid
    exact .inr (.inr (by omega))

namespace Entry

variable {headers : Headers} {params : Params} {e : Entry}

/-- The hash of the entry before, or zero at a root: what the header of an entry has to name. -/
def parentHash (e : Entry) : UInt256 :=
  match e.previous? with
  | some previous => previous.hash
  | none => Wide.zero

/-- A header that names something else does not fit. -/
theorem parentFits_eq_false {header : Header} (other : header.base.previous ≠ e.parentHash) :
    e.parentFits header = false := by
  rw [parentHash] at other
  rw [parentFits]
  rcases before : e.previous? with _ | previous <;> rw [before] at other
  · exact Bool.eq_false_iff.2 fun zeros => other (Wide.eq_zero_of_isZero zeros)
  · exact beq_eq_false_iff_ne.2 other

/-- Whether the target fits can be told on every chain, whatever headers replaced others. -/
theorem exists_bitsFit (valid : params.validate = .ok ()) (fits : params.FitsWords)
    (grown : Grown e) :
    ∃ fit, e.bitsFit headers params = .ok fit := by
  rw [bitsFit]
  split
  next => exact ⟨_, rfl⟩
  next =>
  split
  next => exact ⟨_, rfl⟩
  next => exact ⟨_, rfl⟩
  next cause fault =>
    rw [requiredBits] at fault
    split at fault
    next => cases fault
    next =>
      rcases before : e.previous? with _ | previous <;> rw [before] at fault
      · cases fault
      · exact absurd fault (nextBits_ne_fault valid fits (grown.above before).1)

/-- **Headers out of place.** An entry whose current header has another hash than the one it was
built from, or names something else than the entry before, is not valid, and telling so never
faults. -/
theorem isValid_of_misplaced (valid : params.validate = .ok ()) (fits : params.FitsWords)
    (grown : Grown e)
    (misplaced : (headers e).hash ≠ e.hash ∨ (headers e).base.previous ≠ e.parentHash) :
    e.isValid headers params = .ok false := by
  have placed : (e.genesisFits params && e.heightFits && e.parentFits (headers e) &&
      (headers e).hash == e.hash) = false := by
    rcases misplaced with other | other
    · rw [beq_eq_false_iff_ne.2 other, Bool.and_false]
    · rw [parentFits_eq_false other, Bool.and_false, Bool.false_and]
  obtain ⟨fit, told⟩ := @exists_bitsFit headers params e valid fits grown
  rw [isValid]
  dsimp only
  rw [placed, told]
  split <;> rfl

end Entry

namespace Forest

variable {forest forest' : Forest} {a b e : Entry} {header : Header}

/-! ## Forests -/

/-- The forest was built by planting roots, growing entries on top of its own, and replacing
headers. -/
inductive Grown : Forest → Prop
  | empty : Grown {}
  | plant {forest forest' : Forest} {header : Header} {height : UInt32} {e : Entry} :
      Grown forest → forest.plant header height = .ok (e, forest') → Grown forest'
  | grow {forest forest' : Forest} {previous : Entry} {header : Header} {e : Entry} :
      Grown forest → previous ∈ forest.entries →
      forest.grow previous header = .ok (e, forest') →
        Grown forest'
  | replace {forest : Forest} {e : Entry} {header : Header} :
      Grown forest → e ∈ forest.entries → Grown (forest.replace e header).2

/-- Entries are numbered by their places, were built by growth, and have the entries before them in
the forest. -/
structure Sound (forest : Forest) : Prop where
  numbered : ∀ n (e : Entry), forest.entries[n]? = some e → e.id = n
  built : ∀ e ∈ forest.entries, Entry.Grown e
  closed : ∀ e ∈ forest.entries, ∀ previous, e.previous? = some previous →
    previous ∈ forest.entries

namespace Sound

/-- One more entry. -/
theorem add (sound : forest.Sound) (number : e.id = forest.entries.size) (built : Entry.Grown e)
    (inside : ∀ previous, e.previous? = some previous → previous ∈ forest.entries) :
    (forest.add e).Sound where
  numbered := by
    intro n x found
    rw [Forest.add, Array.getElem?_push] at found
    split at found
    next last =>
      obtain rfl := Option.some.inj found
      rw [number, last]
    next => exact sound.numbered n x found
  built := by
    intro x mem
    rcases Array.mem_push.1 mem with old | rfl
    · exact sound.built x old
    · exact built
  closed := by
    intro x mem previous before
    refine Array.mem_push.2 (.inl ?_)
    rcases Array.mem_push.1 mem with old | rfl
    · exact sound.closed x old previous before
    · exact inside previous before

/-- Entries of one number are one entry. -/
theorem eq_of_id (sound : forest.Sound) (mem : a ∈ forest.entries) (mem' : b ∈ forest.entries)
    (same : a.id = b.id) : a = b := by
  obtain ⟨n, found⟩ := Array.mem_iff_getElem?.1 mem
  obtain ⟨k, found'⟩ := Array.mem_iff_getElem?.1 mem'
  have place : n = k := by rw [← sound.numbered n a found, ← sound.numbered k b found', same]
  rw [place, found'] at found
  exact (Option.some.inj found).symm

/-- What the links of an entry lead to is in the forest. -/
theorem mem_of_leadsTo (sound : forest.Sound) (mem : a ∈ forest.entries)
    (leads : Entry.LeadsTo a b) :
    b ∈ forest.entries := by
  induction leads with
  | refl => exact mem
  | tail _ before ih => exact sound.closed _ ih _ before

end Sound

/-- A forest that grew step by step is sound; the induction is on the steps. -/
theorem Grown.sound (grown : forest.Grown) : forest.Sound := by
  -- by induction on how the forest was grown; new headers change nothing that is asked here
  induction grown with
  | empty => exact ⟨by simp, by simp, by simp⟩
  | @plant forest forest' header height e _ planted ih =>
    rw [Forest.plant] at planted
    split at planted
    next e' built =>
      obtain ⟨rfl, rfl⟩ := Prod.mk.inj (Except.ok.inj planted)
      obtain ⟨-, holds⟩ := Entry.root?_inv built
      refine ih.add ?_ (.root built) ?_
      · rw [holds]
        rfl
      · intro previous before
        rw [holds] at before
        cases before
    next => cases planted
  | @grow forest forest' previous header e _ mem grew ih =>
    rw [Forest.grow] at grew
    split at grew
    next e' built =>
      obtain ⟨rfl, rfl⟩ := Prod.mk.inj (Except.ok.inj grew)
      obtain ⟨-, -, below, holds⟩ := Entry.extend?_inv built
      refine ih.add (congrArg EntryData.id holds) (.extend (ih.built previous mem) built) ?_
      intro previous' before
      obtain rfl := Option.some.inj (below.symm.trans before)
      exact mem
    next => cases grew
  | replace _ _ ih => exact ⟨ih.numbered, ih.built, ih.closed⟩

/-! ## Replacing one header -/

/-- Replacing a payload changes one entry of the table. -/
theorem headers_replace (forest : Forest) (e : Entry) (header : Header) (a : Entry) :
    (forest.replace e header).2.headers a = if a.id = e.id then header else forest.headers a := by
  rw [replace, headers, List.lookup_cons]
  by_cases same : a.id = e.id
  · rw [if_pos same, same, BEq.rfl]
  · rw [if_neg same, beq_eq_false_iff_ne.2 same]
    rfl

/-- An entry as it stands, with the current headers in it and in all that it links to. -/
def current (forest : Forest) (e : Entry) : Entry := e.withHeaders forest.headers

/-- Nothing that follows links only tells two forests apart. Entries that are found are told by
their numbers. -/
structure SameLinks (forest forest' : Forest) : Prop where
  entries : forest'.entries = forest.entries
  hash (a : Entry) : (forest'.current a).hash = (forest.current a).hash
  height (a : Entry) : (forest'.current a).height = (forest.current a).height
  work (a : Entry) : (forest'.current a).work = (forest.current a).work
  previous (a : Entry) :
    (forest'.current a).previous?.map Entry.id = (forest.current a).previous?.map Entry.id
  skip (a : Entry) : (forest'.current a).skip?.map Entry.id = (forest.current a).skip?.map Entry.id
  ancestor (a : Entry) (height : Nat) :
    ((forest'.current a).ancestor? height).map Entry.id =
      ((forest.current a).ancestor? height).map Entry.id
  fork (a b : Entry) :
    ((forest'.current a).fork? (forest'.current b)).map Entry.id =
      ((forest.current a).fork? (forest.current b)).map Entry.id
  isAncestorOf (a b : Entry) :
    (forest'.current a).isAncestorOf (forest'.current b) =
      (forest.current a).isAncestorOf (forest.current b)
  find (a : Entry) (hash : UInt256) :
    ((forest'.current a).find? hash).map Entry.id = ((forest.current a).find? hash).map Entry.id
  locator (a : Entry) : (forest'.current a).locator = (forest.current a).locator

/-- Headers put into entries leave their numbers alone. -/
theorem map_id_current (forest : Forest) (found : Option Entry) :
    (found.map (Entry.withHeaders forest.headers)).map Entry.id = found.map Entry.id := by
  rw [Option.map_map]
  congr 1
  funext x
  exact Entry.id_withHeaders x

/-- Forests of the same entries, whatever headers were replaced in them. -/
theorem sameLinks_of_entries (same : forest'.entries = forest.entries) :
    forest.SameLinks forest' where
  entries := same
  hash a := by simp [current]
  height a := by simp [current]
  work a := by simp [current]
  previous a := by simp only [current, Entry.previous?_withHeaders, map_id_current]
  skip a := by simp only [current, Entry.skip?_withHeaders, map_id_current]
  ancestor a height := by simp only [current, Entry.ancestor?_withHeaders, map_id_current]
  fork a b := by simp only [current, Entry.fork?_withHeaders, map_id_current]
  isAncestorOf a b := by simp [current]
  find a hash := by simp only [current, Entry.find?_withHeaders, map_id_current]
  locator a := by simp [current]

/-- A header with the base of the one that it replaces changes the base of no entry. -/
theorem Grown.base_replace (grown : forest.Grown) (mem : e ∈ forest.entries)
    (same : header.base = (forest.headers e).base) (mem' : a ∈ forest.entries) :
    ((forest.replace e header).2.headers a).base = (forest.headers a).base := by
  rw [headers_replace]
  split
  next own =>
    obtain rfl := grown.sound.eq_of_id mem' mem own
    exact same
  next => rfl

/-- What is computed from headers comes to the same after such a replacement: both times, the
headers are read off the chain with the new ones in it. -/
theorem Grown.same_payloads (grown : forest.Grown) (mem : e ∈ forest.entries)
    (same : header.base = (forest.headers e).base) (mem' : a ∈ forest.entries) :
    let after := (forest.replace e header).2
    a.medianTime after.headers = a.medianTime forest.headers ∧
      a.blockProof after.headers = a.blockProof forest.headers ∧
      ∀ params, a.requiredBits after.headers params = a.requiredBits forest.headers params := by
  intro after
  have linked := (grown.sound.built a mem').linked
  have new : Entry.Agrees after.headers after.headers a := Entry.Agrees.refl after.headers a
  have old : Entry.Agrees after.headers forest.headers a := fun x leads =>
    grown.base_replace mem same (grown.sound.mem_of_leadsTo mem' leads)
  refine ⟨?_, ?_, fun params => ?_⟩
  · rw [← Entry.medianTime_withHeaders new, Entry.medianTime_withHeaders old]
  · rw [← Entry.blockProof_withHeaders new, Entry.blockProof_withHeaders old]
  · rw [← Entry.requiredBits_withHeaders linked new, Entry.requiredBits_withHeaders linked old]

/-- **Replacing a header.** Take any forest that was built by planting, growing and replacing, any
of its entries, and any header for it.

* The replaced header is returned. The entry has the new one from then on, and the others keep
  theirs.
* Nothing that follows links only has changed for any entry.
* If the new header has another hash than the entry, or names something else than the entry before
  it, the entry is invalid by the parameters of every network with periods below `2 ^ 61` seconds.
* If the new header has the base of the replaced one, the median times, the proofs and the required
  targets of all entries are the same as before. -/
theorem replace_changes_one_payload (grown : forest.Grown) (mem : e ∈ forest.entries)
    (header : Header) :
    let after := (forest.replace e header).2
    ((forest.replace e header).1 = forest.headers e ∧ after.headers e = header ∧
      ∀ a ∈ forest.entries, a ≠ e → after.headers a = forest.headers a) ∧
    forest.SameLinks after ∧
    (∀ params : Params, params.validate = .ok () → params.targetTimespan.toNat < 2 ^ 61 →
      header.hash ≠ e.hash ∨ header.base.previous ≠ e.parentHash →
      e.isValid after.headers params = .ok false) ∧
    (header.base = (forest.headers e).base → ∀ a ∈ forest.entries,
      a.medianTime after.headers = a.medianTime forest.headers ∧
      a.blockProof after.headers = a.blockProof forest.headers ∧
      ∀ params, a.requiredBits after.headers params = a.requiredBits forest.headers params) := by
  intro after
  have own : after.headers e = header := by rw [headers_replace, if_pos rfl]
  refine ⟨⟨rfl, own, ?_⟩, sameLinks_of_entries rfl, ?_, ?_⟩
  · intro a mem' other
    rw [headers_replace, if_neg fun same => other (grown.sound.eq_of_id mem' mem same)]
  · intro params valid short misplaced
    rw [← own] at misplaced
    exact Entry.isValid_of_misplaced valid (Params.fitsWords_of_short valid short)
      (grown.sound.built e mem) misplaced
  · intro same a mem'
    exact grown.same_payloads mem same mem'

/-- A forest of a root and an entry on top of it, without any replacement. -/
theorem exists_grown_of_two :
    ∃ (forest : Forest) (first second : Entry), forest.Grown ∧ first ∈ forest.entries ∧
      second ∈ forest.entries ∧ first.previous? = none ∧ second.previous? = some first ∧
      forest.headers first = Entry.plainHeader Wide.zero := by
  obtain ⟨first, rooted, grown, start, level, own⟩ :=
    @Entry.exists_root (Entry.plainHeader Wide.zero) rfl 0 0
  have room : first.height < 0xffffffff := by
    rw [level]
    decide
  obtain ⟨second, built, -, before, -⟩ :=
    @Entry.Grown.exists_extend first (Entry.plainHeader first.hash) grown rfl room 1
  let one : Forest := ({} : Forest).add first
  have planted : ({} : Forest).plant (Entry.plainHeader Wide.zero) 0 = .ok (first, one) := by
    have rooted' :
        Entry.root? ({} : Forest).entries.size (Entry.plainHeader Wide.zero) 0 = .ok first := rooted
    rw [plant, rooted']
  have mem : first ∈ one.entries := Array.mem_push_self
  have grew : one.grow first (Entry.plainHeader first.hash) = .ok (second, one.add second) := by
    have built' : first.extend? one.entries.size (Entry.plainHeader first.hash) = .ok second :=
      built
    rw [grow, built']
  exact ⟨one.add second, first, second, .grow (.plant .empty planted) mem grew,
    Array.mem_push.2 (.inl mem), Array.mem_push_self, start, before, own⟩

/-- The header of a root that has another entry on top: one that names something makes the root
invalid on the main network, and the proven form of its own one leaves the required target above it
as it is. -/
theorem root_replaced_below_another :
    ∃ (forest misplaced proven : Forest) (first second : Entry),
      forest.Grown ∧ first ∈ forest.entries ∧ second.previous? = some first ∧
      misplaced = (forest.replace first (Entry.plainHeader Entry.trunkHash)).2 ∧
      forest.SameLinks misplaced ∧ first.isValid misplaced.headers .main = .ok false ∧
      proven = (forest.replace first (.proven (Entry.plainHeader Wide.zero).base default)).2 ∧
      proven.headers first ≠ forest.headers first ∧
      ∀ params, second.requiredBits proven.headers params =
        second.requiredBits forest.headers params := by
  obtain ⟨forest, first, second, grown, mem, mem', start, before, own⟩ := exists_grown_of_two
  obtain ⟨-, links, invalid, -⟩ :=
    replace_changes_one_payload grown mem (Entry.plainHeader Entry.trunkHash)
  obtain ⟨⟨-, given, -⟩, -, -, same⟩ :=
    replace_changes_one_payload grown mem (.proven (Entry.plainHeader Wide.zero).base default)
  have other : (Entry.plainHeader Entry.trunkHash).base.previous ≠ first.parentHash := by
    rw [Entry.parentHash, start]
    decide
  have base : (Entry.plainHeader Wide.zero).base = (forest.headers first).base := by rw [own]
  refine ⟨forest, _, _, first, second, grown, mem, before, rfl, links, ?_, rfl, ?_,
    (same base second mem').2.2⟩
  · exact invalid .main (by decide) (by decide) (.inr other)
  · rw [given, own]
    exact Header.noConfusion

end Forest

end BlockRules
