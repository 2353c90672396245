import BlockRules.Chain.Retarget

/-!
# Validating entries

An entry is valid if its current header fits its place: the links and the hash agree with
what the header says, a fixed first block is the right one and, on a proof-of-work
network, the hash meets the target and the target is the required one.
-/

namespace BlockRules.Entry

/-- At height zero there is no entry before, and the hash is the fixed one if there is one. -/
def genesisFits (params : Params) (e : Entry) : Bool :=
  e.height != 0
    || (e.previous?.isNone
      && match params.genesisHash with
        | some expected => expected == e.hash
        | none => true)

/-- The height is one more than the one before. -/
def heightFits (e : Entry) : Bool :=
  match e.previous? with
  | some previous => previous.height + 1 == e.height
  | none => true

/-- The header names the entry before, or nothing at a root. -/
def parentFits (header : Header) (e : Entry) : Bool :=
  match e.previous? with
  | some previous => header.base.previous == previous.hash
  | none => header.base.previous.isZero

/-- The header states the required target. A root above height zero has no history to
derive one from, and an entry whose history is cut off has no required target at all. -/
def bitsFit (headers : Headers) (params : Params) (e : Entry) : Except Fault Bool :=
  if e.previous?.isNone && e.height != 0 then .ok true
  else
    match e.requiredBits headers params with
    | .ok required => .ok (required == e.bits headers)
    | .error (.partialChain _) => .ok false
    | .error (.fault cause) => .error cause

/-- The entry is valid with its current header. -/
def isValid (headers : Headers) (params : Params) (e : Entry) : Except Fault Bool := do
  let header := headers e
  let placed :=
    e.genesisFits params && e.heightFits && e.parentFits header && header.hash == e.hash
  if header.isProven then return placed
  else
    let met := header.base.bits.isMetBy e.hash
    return placed && met && (← e.bitsFit headers params)

end BlockRules.Entry
