import BlockRules.Chain.Entry
import BlockRules.Params

/-!
# Difficulty

The target that the next block of a chain must state.

* Within a retarget period it is the target of the last block. Networks that allow easy
  blocks give the easiest one to a block that comes late, and otherwise go back to the
  last block that was not one of those (`Entry.lastRegularBits`).
* At the end of a period it is scaled by the time the period took, within a factor of
  four (`Params.retarget`).

The arithmetic runs in machine words where the rule says so, and a case without a result
is a `Fault`.
-/

namespace BlockRules

/-- The first block of a period lies below the root of the chain. -/
structure PartialChain where
  /-- the height of that block -/
  height : Nat
  /-- the hash of the last block -/
  below : UInt256
  deriving DecidableEq, Repr

/-- The wording of a missing history. -/
def PartialChain.message (e : PartialChain) : String :=
  s!"no ancestor at height {e.height} below {e.below.toHex}"

/-- Why there is no target for the next block. -/
inductive RetargetError where
  | partialChain (cause : PartialChain)
  | fault (cause : Fault)
  deriving DecidableEq, Repr

/-- A value moved into a range, which must not be empty. -/
def clampTo (low high v : Int) : Except Fault Int :=
  if high < low then .error .emptyRange else .ok (max low (min v high))

/-- The period in seconds as a signed word. -/
def Params.signedTimespan (params : Params) : Int := params.targetTimespan.toInt64.toInt

/-- The target after a period: the old one times the time the period took, cut to between a
quarter and four times the planned time, divided by the planned time, rounded toward zero
and capped at the limit. -/
def Params.retarget (params : Params) (bits : Target) (lastTime firstTime : UInt32) :
    Except Fault Target :=
  if params.noRetargeting then .ok bits
  else do
    let timespan := params.signedTimespan
    let longest ← signed64 (timespan * 4)
    let actual ← clampTo (timespan.tdiv 4) longest (lastTime.toNat - firstTime.toNat : Int)
    if timespan = 0 then throw .divisionByZero
    let scaled := (bits.toInt * actual).tdiv timespan
    if params.powLimit.toInt < scaled then return params.powLimit
    match Target.ofInt? scaled with
    | .ok target => return target
    | .error (.format _) => return params.powLimit
    | .error (.fault cause) => throw cause

namespace Entry

/-- The current target of an entry's header. -/
def bits (headers : Headers) (e : Entry) : Target := (headers e).base.bits

/-- The current time of an entry's header. -/
def time (headers : Headers) (e : Entry) : UInt32 := (headers e).base.time

/-- The target of the last entry that starts a period, does not have the easiest target, or
is the root. -/
def lastRegularBits (headers : Headers) (limit : Target) (interval : Nat) : Entry → Target
  | .root data => bits headers (.root data)
  | .link data previous =>
    let own := bits headers (.link data previous)
    if data.height % interval = 0 ∨ own ≠ limit then own
    else lastRegularBits headers limit interval previous
  | .jump data previous skip =>
    let own := bits headers (.jump data previous skip)
    if data.height % interval = 0 ∨ own ≠ limit then own
    else lastRegularBits headers limit interval previous

/-- The target of a block inside a period that is built on an entry. -/
def bitsWithinPeriod (headers : Headers) (params : Params) (interval : Nat) (last : Entry)
    (newTime : UInt32) : Except Fault Target :=
  if params.allowMinDifficulty then do
    let gap ← unsigned64 (params.targetSpacing.toNat * 2)
    let late ← unsigned64 ((last.time headers).toNat + gap)
    if late < newTime.toNat then return params.powLimit
    else return lastRegularBits headers params.powLimit interval last
  else .ok (last.bits headers)

/-- The target of the block that starts a period on top of an entry. -/
def bitsOfNewPeriod (headers : Headers) (params : Params) (interval : Nat) (last : Entry) :
    Except RetargetError Target :=
  let firstHeight := last.height - (interval - 1)
  match last.ancestor? firstHeight with
  | none => .error (.partialChain ⟨firstHeight, last.hash⟩)
  | some first =>
    match params.retarget (last.bits headers) (last.time headers) (first.time headers) with
    | .ok target => .ok target
    | .error cause => .error (.fault cause)

/-- The target that a block with the given time on top of an entry must state; the first
block of all has the limit. -/
def nextBits (headers : Headers) (params : Params) (last : Option Entry) (newTime : UInt32) :
    Except RetargetError Target :=
  match last with
  | none => .ok params.powLimit
  | some last =>
    match params.interval with
    | .error cause => .error (.fault cause)
    | .ok 0 => .error (.fault .divisionByZero)
    | .ok interval =>
      if (last.height + 1) % interval = 0 then bitsOfNewPeriod headers params interval last
      else
        match bitsWithinPeriod headers params interval last newTime with
        | .ok target => .ok target
        | .error cause => .error (.fault cause)

/-- The target that the header of an entry must state. -/
def requiredBits (headers : Headers) (params : Params) (e : Entry) : Except RetargetError Target :=
  if e.height = 0 then .ok params.powLimit
  else nextBits headers params e.previous? (e.time headers)

/-- The work of an entry's current header alone. -/
def blockProof (headers : Headers) (e : Entry) : Nat := (e.bits headers).blockProof

/-! ### Median time -/

/-- At most `n` entries from this one down. -/
def recent : Nat → Entry → List Entry
  | 0, _ => []
  | _ + 1, .root data => [.root data]
  | n + 1, .link data previous => .link data previous :: recent n previous
  | n + 1, .jump data previous skip => .jump data previous skip :: recent n previous

/-- The walk back over `n` entries is the front part of the path to the root. -/
theorem recent_eq_take_path (n : Nat) (e : Entry) : recent n e = e.path.take n := by
  induction e generalizing n with
  | root data => cases n <;> simp [recent, path]
  | link data previous ih => cases n <;> simp [recent, path, ih]
  | jump data previous skip ih _ => cases n <;> simp [recent, path, ih]

/-- The number of entries whose times give the median. -/
def medianSpan : Nat := 11

/-- The median of the times of the last eleven entries, or of as many as there are; of an
even number, the later one of the two in the middle. -/
def medianTime (headers : Headers) (e : Entry) : UInt32 :=
  let times := (recent medianSpan e).map (time headers)
  let sorted := times.mergeSort fun a b => a ≤ b
  sorted[sorted.length / 2]?.getD 0

end Entry

end BlockRules
