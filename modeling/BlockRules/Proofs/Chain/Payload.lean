import Mathlib
import BlockRules.Chain.Branch
import BlockRules.Chain.Validate
import BlockRules.Proofs.Chain.Growth

/-!
# Links and payloads

An entry shares its ancestors with many chains, and its header can be replaced while the links stay.
So every question about a chain belongs to one of two kinds, and this module sorts them.
`Entry.withHeaders` puts other headers into an entry and all that it links to, and leaves alone what
was computed when the entries were built.

* **links** — what only follows links gives the same answers in a chain with other headers, which
  are those answers with the headers put into them: heights, hashes and work,
  `ancestor?_withHeaders`, `fork?_withHeaders`, `find?_withHeaders`, `isAncestorOf_withHeaders` and
  `locator_withHeaders`;
* **payloads** — what reads headers reads them off the entries that the links lead to, and of each
  one nothing but its base: `medianTime_withHeaders`, `blockProof_withHeaders`,
  `requiredBits_withHeaders`. Validating an entry looks at the kind of its own header besides
  (`isValid_withHeaders`).
-/

namespace BlockRules.Entry

variable {current : Headers}

/-- The entry with other headers, in it and in all that it links to. -/
def withHeaders (current : Headers) : Entry → Entry
  | .root data => .root { data with header := current (.root data) }
  | .link data previous =>
    .link { data with header := current (.link data previous) } (withHeaders current previous)
  | .jump data previous skip =>
    .jump { data with header := current (.jump data previous skip) } (withHeaders current previous)
      (withHeaders current skip)

/-! ## Links -/

@[simp] theorem id_withHeaders (e : Entry) : (e.withHeaders current).id = e.id := by
  cases e <;> rfl

@[simp] theorem header_withHeaders (e : Entry) : (e.withHeaders current).header = current e := by
  cases e <;> rfl

@[simp] theorem hash_withHeaders (e : Entry) : (e.withHeaders current).hash = e.hash := by
  cases e <;> rfl

@[simp] theorem height_withHeaders (e : Entry) : (e.withHeaders current).height = e.height := by
  cases e <;> rfl

@[simp] theorem work_withHeaders (e : Entry) : (e.withHeaders current).work = e.work := by
  cases e <;> rfl

@[simp] theorem previous?_withHeaders (e : Entry) :
    (e.withHeaders current).previous? = e.previous?.map (withHeaders current) := by
  cases e <;> rfl

@[simp] theorem skip?_withHeaders (e : Entry) :
    (e.withHeaders current).skip? = e.skip?.map (withHeaders current) := by
  cases e <;> rfl

@[simp] theorem origin_withHeaders (e : Entry) :
    (e.withHeaders current).origin = e.origin.withHeaders current := by
  induction e with
  | root data => rfl
  | link data previous ih => exact ih
  | jump data previous skip ih _ => exact ih

@[simp] theorem path_withHeaders (e : Entry) :
    (e.withHeaders current).path = e.path.map (withHeaders current) := by
  induction e with
  | root data => rfl
  | link data previous ih => exact congrArg (List.cons _) ih
  | jump data previous skip ih _ => exact congrArg (List.cons _) ih

/-- The walk follows links and heights only: it goes the same way whatever the payloads are. -/
theorem walkTo_withHeaders (target : Nat) (e : Entry) :
    walkTo target (e.withHeaders current) = (walkTo target e).map (withHeaders current) := by
  induction e with
  | root data =>
    simp only [withHeaders, walkTo]
    split <;> rfl
  | link data previous ih =>
    simp only [withHeaders, walkTo]
    split
    next => rfl
    next => exact ih
  | jump data previous skip ih ih' =>
    simp only [withHeaders, walkTo, height_withHeaders]
    split
    next => rfl
    next =>
      split
      next => exact ih'
      next => exact ih

@[simp] theorem ancestor?_withHeaders (e : Entry) (height : Nat) :
    (e.withHeaders current).ancestor? height = (e.ancestor? height).map (withHeaders current) := by
  rw [ancestor?, ancestor?, height_withHeaders, walkTo_withHeaders]
  split <;> rfl

/-- Two chains meet at the same place whatever the payloads are. -/
theorem meet_withHeaders (low high : Entry) :
    meet (low.withHeaders current) (high.withHeaders current) =
      (meet low high).map (withHeaders current) := by
  -- the walk is by recursion on the lower chain, and looks at hashes alone, which stay
  induction low generalizing high with
  | root data =>
    simp only [withHeaders, meet, hash_withHeaders]
    split <;> rfl
  | link data previous ih =>
    simp only [withHeaders, meet, hash_withHeaders, skip?_withHeaders, previous?_withHeaders]
    split
    next => rfl
    next =>
      rcases high.skip? with _ | far
      · rcases high.previous? with _ | below
        · rfl
        · exact ih below
      · rfl
  | jump data previous skip ih ih' =>
    simp only [withHeaders, meet, hash_withHeaders, skip?_withHeaders, previous?_withHeaders]
    split
    next => rfl
    next =>
      rcases high.skip? with _ | far
      · rfl
      · simp only [Option.map_some, hash_withHeaders]
        split
        next => exact ih' far
        next =>
          rcases high.previous? with _ | below
          · rfl
          · exact ih below

/-- Going down two chains to the lower of two heights, and from there in step. -/
@[simp] theorem fork?_withHeaders (a b : Entry) :
    (a.withHeaders current).fork? (b.withHeaders current) = (a.fork? b).map
      (withHeaders current) := by
  by_cases taller : b.height < a.height
  · simp only [fork?, height_withHeaders, if_pos taller, ancestor?_withHeaders]
    rcases a.ancestor? b.height with _ | high
    · rfl
    · exact meet_withHeaders b high
  · simp only [fork?, height_withHeaders, if_neg taller, ancestor?_withHeaders]
    rcases b.ancestor? a.height with _ | high
    · rfl
    · exact meet_withHeaders a high

@[simp] theorem find?_withHeaders (e : Entry) (hash : UInt256) :
    (e.withHeaders current).find? hash = (e.find? hash).map (withHeaders current) := by
  have same : (fun x : Entry => decide (x.hash = hash)) ∘ withHeaders current =
      fun x => decide (x.hash = hash) := by
    funext x
    rw [Function.comp_apply, hash_withHeaders]
  rw [find?, find?, path_withHeaders, List.find?_map, same]

@[simp] theorem isAncestorOf_withHeaders (a b : Entry) :
    (a.withHeaders current).isAncestorOf (b.withHeaders current) = a.isAncestorOf b := by
  rw [isAncestorOf, isAncestorOf, ancestor?_withHeaders, height_withHeaders]
  rcases b.ancestor? a.height with _ | x
  · rfl
  · simp only [Option.map_some, hash_withHeaders]

/-- A locator holds hashes, which stay when a payload is replaced. -/
theorem locatorFrom_withHeaders (fuel count step : Nat) (e : Entry) :
    locatorFrom fuel count step (e.withHeaders current) = locatorFrom fuel count step e := by
  induction fuel generalizing count step e with
  | zero => rfl
  | succ fuel ih =>
    rw [locatorFrom, locatorFrom, previous?_withHeaders]
    rcases e.previous? with _ | previous
    · simp only [Option.map_none, hash_withHeaders]
    · have next : ((e.withHeaders current).ancestor? ((e.withHeaders current).height - step)).getD
          (e.withHeaders current).origin =
          ((e.ancestor? (e.height - step)).getD e.origin).withHeaders current := by
        rw [ancestor?_withHeaders, height_withHeaders, origin_withHeaders, Option.getD_map]
      simp only [Option.map_some, hash_withHeaders, next, ih]

@[simp] theorem locator_withHeaders (e : Entry) : (e.withHeaders current).locator = e.locator := by
  rw [locator, locator, height_withHeaders, locatorFrom_withHeaders]

/-! ## Payloads

A question that reads headers may be asked of an entry with other headers put into it, reading them
off the entries themselves (`header`), or of the entry as it is, with the current headers at
hand. -/

variable {headers : Headers} {params : Params} {interval : Nat} {newTime : UInt32} {e x : Entry}

/-- Two ways to know the headers of a chain agree on the base of each of them: one of them reads the
headers that were put into the chain. -/
def Agrees (current headers : Headers) (e : Entry) : Prop :=
  ∀ x, LeadsTo e x → (current x).base = (headers x).base

namespace Agrees

theorem refl (headers : Headers) (e : Entry) : Agrees headers headers e := fun _ _ => rfl

theorem of_leadsTo (agree : Agrees current headers e) (leads : LeadsTo e x) :
    Agrees current headers x :=
  fun y behind => agree y (leads.trans behind)

theorem previous {previous : Entry} (agree : Agrees current headers e)
    (before : e.previous? = some previous) : Agrees current headers previous :=
  agree.of_leadsTo (LeadsTo.head before (LeadsTo.refl previous))

theorem base (agree : Agrees current headers e) :
    (header (e.withHeaders current)).base = (headers e).base := by
  rw [header_withHeaders]
  exact agree e (LeadsTo.refl e)

theorem bits (agree : Agrees current headers e) :
    (e.withHeaders current).bits header = e.bits headers := congrArg BlockHeader.bits agree.base

theorem time (agree : Agrees current headers e) :
    (e.withHeaders current).time header = e.time headers := congrArg BlockHeader.time agree.base

end Agrees

theorem blockProof_withHeaders (agree : Agrees current headers e) :
    (e.withHeaders current).blockProof header = e.blockProof headers :=
  congrArg Target.blockProof agree.bits

theorem medianTime_withHeaders (agree : Agrees current headers e) :
    (e.withHeaders current).medianTime header = e.medianTime headers := by
  have times : (recent medianSpan (e.withHeaders current)).map (Entry.time header) =
      (recent medianSpan e).map (Entry.time headers) := by
    rw [recent_eq_take_path, recent_eq_take_path, path_withHeaders, ← List.map_take, List.map_map]
    refine List.map_congr_left fun x mem => ?_
    exact (agree.of_leadsTo (mem_path_iff.1 (List.mem_of_mem_take mem))).time
  rw [medianTime, medianTime, times]

/-- The walk to the last regular target reads bits only, and these agree. -/
theorem lastRegularBits_withHeaders {limit : Target} (agree : Agrees current headers e) :
    lastRegularBits header limit interval (e.withHeaders current) =
      lastRegularBits headers limit interval e := by
  have own := agree.bits
  induction e with
  | root data => exact own
  | link data previous ih =>
    have below := ih (agree.previous rfl) (agree.previous rfl).bits
    rw [withHeaders] at own ⊢
    simp only [lastRegularBits, own, below]
  | jump data previous skip ih _ =>
    have below := ih (agree.previous rfl) (agree.previous rfl).bits
    rw [withHeaders] at own ⊢
    simp only [lastRegularBits, own, below]

theorem bitsWithinPeriod_withHeaders (agree : Agrees current headers e) :
    bitsWithinPeriod header params interval (e.withHeaders current) newTime =
      bitsWithinPeriod headers params interval e newTime := by
  simp only [bitsWithinPeriod, agree.time, agree.bits, lastRegularBits_withHeaders agree]

theorem bitsOfNewPeriod_withHeaders (linked : Linked e) (agree : Agrees current headers e) :
    bitsOfNewPeriod header params interval (e.withHeaders current) =
      bitsOfNewPeriod headers params interval e := by
  simp only [bitsOfNewPeriod, ancestor?_withHeaders, height_withHeaders,
    hash_withHeaders, agree.time, agree.bits]
  rcases found : e.ancestor? (e.height - (interval - 1)) with _ | first
  · rfl
  · have leads := (linked.ancestor?_eq_some_iff.1 found).1
    simp only [Option.map_some, (agree.of_leadsTo leads).time]

theorem nextBits_withHeaders (linked : Linked e) (agree : Agrees current headers e) :
    nextBits header params (some (e.withHeaders current)) newTime =
      nextBits headers params (some e) newTime := by
  simp only [nextBits, height_withHeaders, bitsOfNewPeriod_withHeaders linked agree,
    bitsWithinPeriod_withHeaders agree]

theorem requiredBits_withHeaders (linked : Linked e) (agree : Agrees current headers e) :
    (e.withHeaders current).requiredBits header params = e.requiredBits headers params := by
  rw [requiredBits, requiredBits, height_withHeaders, previous?_withHeaders, agree.time]
  rcases before : e.previous? with _ | previous
  · rfl
  · rw [Option.map_some, nextBits_withHeaders (linked.previous before).1 (agree.previous before)]

theorem bitsFit_withHeaders (linked : Linked e) (agree : Agrees current headers e) :
    (e.withHeaders current).bitsFit header params = e.bitsFit headers params := by
  have placed : (e.withHeaders current).previous?.isNone = e.previous?.isNone := by
    rw [previous?_withHeaders, Option.isNone_map]
  rw [bitsFit, bitsFit, placed, height_withHeaders,
    requiredBits_withHeaders linked agree, agree.bits]

theorem genesisFits_withHeaders :
    (e.withHeaders current).genesisFits params = e.genesisFits params := by
  simp only [genesisFits, height_withHeaders, previous?_withHeaders, Option.isNone_map,
    hash_withHeaders]

theorem heightFits_withHeaders : (e.withHeaders current).heightFits = e.heightFits := by
  rw [heightFits, heightFits, previous?_withHeaders, height_withHeaders]
  rcases e.previous? with _ | previous
  · rfl
  · simp only [Option.map_some, height_withHeaders]

theorem parentFits_withHeaders (own : Header) :
    (e.withHeaders current).parentFits own = e.parentFits own := by
  rw [parentFits, parentFits, previous?_withHeaders]
  rcases e.previous? with _ | previous
  · rfl
  · simp only [Option.map_some, hash_withHeaders]

/-- **Reading headers off entries.** Whether an entry is valid with its current header is a question
about the entry as it stands, with the current headers in it and in all that it links to. -/
theorem isValid_withHeaders (linked : Linked e) :
    (e.withHeaders current).isValid header params = e.isValid current params := by
  rw [isValid, isValid, header_withHeaders, genesisFits_withHeaders, heightFits_withHeaders,
    parentFits_withHeaders, hash_withHeaders, bitsFit_withHeaders linked (Agrees.refl current e)]

end BlockRules.Entry
