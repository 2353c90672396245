import BlockRules.Chain.Entry

/-!
# Branches

Questions about how chains hang together: where two of them part, whether an entry lies
on the chain of another one, which entry of a chain has a given hash, and the short list
of hashes (`Entry.locator`) by which somebody else can find the last entry that both
know. All of them follow links only.
-/

namespace BlockRules.Entry

/-- Goes down two chains in step, from two entries of one height, to the first hash that
both have. Shortcuts are taken where both have one and they lead to different entries. -/
def meet : Entry → Entry → Option Entry
  | .root data, high => if high.hash = data.hash then some high else none
  | .link data previous, high =>
    if high.hash = data.hash then some high
    else
      match high.skip?, high.previous? with
      | none, some below => meet previous below
      | _, _ => none
  | .jump data previous skip, high =>
    if high.hash = data.hash then some high
    else
      match high.skip? with
      | none => none
      | some far =>
        if far.hash ≠ skip.hash then meet skip far
        else
          match high.previous? with
          | some below => meet previous below
          | none => none

/-- The highest entry that two chains share. -/
def fork? (a b : Entry) : Option Entry :=
  let (high, low) := if b.height < a.height then (a, b) else (b, a)
  match high.ancestor? low.height with
  | none => none
  | some high => meet low high

/-- The highest entry with a hash on the chain of an entry. -/
def find? (e : Entry) (hash : UInt256) : Option Entry := e.path.find? fun x => x.hash = hash

/-- An entry is another one or lies on its chain. -/
def isAncestorOf (a b : Entry) : Bool :=
  match b.ancestor? a.height with
  | some x => x.hash == a.hash
  | none => false

/-- The locator from an entry on: `count` hashes were listed before, and the next entry is
`step` lower. The first argument bounds the number of entries. -/
def locatorFrom : Nat → Nat → Nat → Entry → List UInt256
  | 0, _, _, _ => []
  | fuel + 1, count, step, e =>
    match e.previous? with
    | none => [e.hash]
    | some _ =>
      let next := (e.ancestor? (e.height - step)).getD e.origin
      let step := if 10 ≤ count then min (2 * step) 0xffffffff else step
      e.hash :: locatorFrom fuel (count + 1) step next

/-- The hashes of an entry and of eleven entries right below it, then of entries at
distances that double, and of the root. -/
def locator (e : Entry) : List UInt256 := locatorFrom (e.height + 1) 0 1 e

end BlockRules.Entry
