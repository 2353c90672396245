import BlockRules.Chain.Branch
import BlockRules.Chain.Validate

/-!
# Forests

A forest is a growing collection of entries together with the headers that replaced the
ones they were built from. Entries are numbered in the order in which they were added. The
links between entries never change; only `Forest.headers` does.
-/

namespace BlockRules

/-- The entries built so far, and the headers that were put in the place of others. -/
structure Forest where
  entries : Array Entry := #[]
  /-- headers that replaced others, with the numbers of their entries, latest first -/
  replaced : List (Nat × Header) := []

namespace Forest

/-- The current header of an entry. -/
def headers (forest : Forest) : Headers := fun e =>
  match forest.replaced.lookup e.id with
  | some header => header
  | none => e.header

/-- The forest with one more entry. -/
def add (forest : Forest) (e : Entry) : Forest := { forest with entries := forest.entries.push e }

/-- Adds the root of a chain. -/
def plant (forest : Forest) (header : Header) (height : UInt32) :
    Except LinkError (Entry × Forest) :=
  match Entry.root? forest.entries.size header height with
  | .ok e => .ok (e, forest.add e)
  | .error e => .error e

/-- Adds an entry on top of another one. -/
def grow (forest : Forest) (previous : Entry) (header : Header) :
    Except LinkError (Entry × Forest) :=
  match previous.extend? forest.entries.size header with
  | .ok e => .ok (e, forest.add e)
  | .error e => .error e

/-- Replaces the header of an entry; the replaced one is returned. -/
def replace (forest : Forest) (e : Entry) (header : Header) : Header × Forest :=
  (forest.headers e, { forest with replaced := (e.id, header) :: forest.replaced })

end Forest

end BlockRules
