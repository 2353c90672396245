import BlockRules.Header

/-!
# Chain entries

An entry is a header at its place in a chain: it knows its height, the work of the chain
up to it, the entry before it and, as a shortcut, an entry further back.

* **shape** — `Entry` is a tree of immutable entries that share their ancestors. A root
  has no entry before it; a link has one; a jump has a shortcut besides. Every lookup
  follows these two links and ends because both lead to a smaller entry.
* **shortcuts** — the entry at height `h` jumps to height `skipHeight h`, if the chain
  reaches down that far. `Entry.ancestor?` follows shortcuts where they help.
* **growth** — `Entry.root?` and `Entry.extend?` are the only ways to build a chain, and
  `Entry.Grown` says of an entry that it was built by them.

The header of an entry can be replaced later. So whatever reads headers takes the current
header of every entry as an argument, a `Headers`; whatever only follows links does not.
-/

namespace BlockRules

/-- What an entry holds besides its links. -/
structure EntryData where
  /-- tells entries of one forest apart -/
  id : Nat
  /-- the header the entry was built from -/
  header : Header
  /-- the hash of that header -/
  hash : UInt256
  height : Nat
  /-- the work of all headers from the root up to this one -/
  work : Nat
  deriving DecidableEq, Inhabited

/-- A header bound into a chain. -/
inductive Entry where
  | root (data : EntryData)
  | link (data : EntryData) (previous : Entry)
  | jump (data : EntryData) (previous skip : Entry)
  deriving DecidableEq, Inhabited

/-- The current header of every entry. -/
abbrev Headers := Entry → Header

/-- Why a header cannot be bound into a chain. -/
inductive LinkError where
  | rootWithParent (header declared : UInt256)
  | wrongParent (header declared expected : UInt256)
  | heightOverflow
  deriving DecidableEq, Repr

/-- The wording of a refusal. -/
def LinkError.message : LinkError → String
  | .rootWithParent header declared =>
    s!"root header {header.toHex} declares previous hash {declared.toHex}"
  | .wrongParent header declared expected =>
    s!"header {header.toHex} declares previous hash {declared.toHex}, expected {expected.toHex}"
  | .heightOverflow => "chain height overflows u32"

/-- The number without its lowest set bit. -/
def clearLowestBit (n : Nat) : Nat := n &&& (n - 1)

/-- The height that the shortcut of an entry leads to. -/
def skipHeight (height : Nat) : Nat :=
  if height < 2 then 0
  else if height % 2 = 1 then clearLowestBit (clearLowestBit (height - 1)) + 1
  else clearLowestBit height

namespace Entry

/-- What every entry carries, wherever it stands in the chain. -/
def data : Entry → EntryData
  | .root data => data
  | .link data _ => data
  | .jump data _ _ => data

/-- The number under which the entry was added. -/
def id (e : Entry) : Nat := e.data.id

/-- The header the entry was built from. One that replaced it later is not seen here. -/
def header (e : Entry) : Header := e.data.header

/-- The name of the header, worked out when the entry was built. -/
def hash (e : Entry) : UInt256 := e.data.hash

/-- The height of the block. -/
def height (e : Entry) : Nat := e.data.height

/-- The work of the chain up to the entry, its own included. -/
def work (e : Entry) : Nat := e.data.work

/-- The entry before this one. -/
def previous? : Entry → Option Entry
  | .root _ => none
  | .link _ previous => some previous
  | .jump _ previous _ => some previous

/-- The entry the shortcut leads to. -/
def skip? : Entry → Option Entry
  | .root _ => none
  | .link _ _ => none
  | .jump _ _ skip => some skip

/-- Height and hash. -/
def display (e : Entry) : String := s!"{e.height}-{e.hash.toHex}"

/-- All fields, with the links reduced to the hash of one and the height of the other. -/
def debug (e : Entry) : String :=
  let previous := match e.previous? with
    | some p => s!"Some({p.hash.named})"
    | none => "None"
  let skip := match e.skip? with
    | some s => s!"Some({s.height})"
    | none => "None"
  "ChainedHeader \x7b height: " ++ toString e.height ++ ", hash: " ++ e.hash.named
    ++ ", previous: " ++ previous ++ ", skip: " ++ skip ++ ", chain_work: " ++
      toString e.work ++ " \x7d"

/-! ### Ancestors -/

/-- On the way from `height` down to `target`, the shortcut to height `skip` is taken if it
leads exactly there, or not too far and the shortcut of the entry before is no better. -/
def takesSkip (height skip target : Nat) : Bool :=
  let before := skipHeight (height - 1)
  skip == target || (target < skip && !(before + 2 < skip && target ≤ before))

/-- The first entry at or below a height on the way down. -/
def walkTo (target : Nat) : Entry → Option Entry
  | .root data => if data.height ≤ target then some (.root data) else none
  | .link data previous =>
    if data.height ≤ target then some (.link data previous) else walkTo target previous
  | .jump data previous skip =>
    if data.height ≤ target then some (.jump data previous skip)
    else if takesSkip data.height skip.height target then walkTo target skip
    else walkTo target previous

/-- The ancestor at a height; none above the entry and below the root. -/
def ancestor? (e : Entry) (height : Nat) : Option Entry :=
  if e.height < height then none else walkTo height e

/-- The entries from this one down to the root. -/
def path : Entry → List Entry
  | .root data => [.root data]
  | .link data previous => .link data previous :: path previous
  | .jump data previous skip => .jump data previous skip :: path previous

/-- The root of the chain. -/
def origin : Entry → Entry
  | .root data => .root data
  | .link _ previous => origin previous
  | .jump _ previous _ => origin previous

/-! ### Growth -/

/-- A root at a height; its header must name no parent. -/
def root? (id : Nat) (header : Header) (height : UInt32) : Except LinkError Entry :=
  if header.base.previous.isZero then
    .ok (.root
      { id, header, hash := header.hash, height := height.toNat,
        work := header.base.bits.blockProof })
  else .error (.rootWithParent header.hash header.base.previous)

/-- The entry for a header on top of another entry, whose hash it must name. -/
def extend? (previous : Entry) (id : Nat) (header : Header) : Except LinkError Entry :=
  if header.base.previous ≠ previous.hash then
    .error (.wrongParent header.hash header.base.previous previous.hash)
  else if 0xffffffff < previous.height + 1 then .error .heightOverflow
  else
    let height := previous.height + 1
    let work := previous.work + header.base.bits.blockProof
    let data : EntryData := { id, header, hash := header.hash, height, work }
    match previous.ancestor? (skipHeight height) with
    | none => .ok (.link data previous)
    | some skip => .ok (.jump data previous skip)

/-- The entry was built by `root?` and `extend?`. -/
inductive Grown : Entry → Prop
  | root {id : Nat} {header : Header} {height : UInt32} {e : Entry} :
      root? id header height = .ok e → Grown e
  | extend {previous : Entry} {id : Nat} {header : Header} {e : Entry} :
      Grown previous → previous.extend? id header = .ok e → Grown e

end Entry

end BlockRules
