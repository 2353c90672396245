/-!
# Stacks addressed from the top

A stack is the list of its items, top first. Items are addressed by negative numbers:
`-1` is the top and `-count` the bottom. Every operation checks its addresses, and one
that is refused changes nothing.

* an address is good if it lies in `-count … -1` (`Stack.depth?`); the result is the
  number of items above the one it names;
* an item can also be put in at `-(count + 1)`, below all others;
* a range goes from one address up to, but without, another one, and `0` stands for the
  place above the top.
-/

namespace BlockRules

/-- A stack, its top first. -/
abbrev Stack (α : Type) := List α

/-- Why an operation on a stack is refused. -/
inductive StackError where
  | outOfRange (index : Int) (count : Nat)
  | badRange (first last : Int) (count : Nat)
  deriving DecidableEq, Repr

/-- The wording of a refusal. -/
def StackError.message : StackError → String
  | .outOfRange index count => s!"stack index {index} out of range for {count} items"
  | .badRange first last count => s!"stack range {first}..{last} out of range for {count} items"

namespace Stack

variable {α : Type}

/-- The number of items above the addressed one. -/
def depth? (s : Stack α) (index : Int) : Except StackError (Fin s.length) :=
  if h : index < 0 ∧ index.natAbs ≤ s.length then .ok ⟨index.natAbs - 1, by omega⟩
  else .error (.outOfRange index s.length)

/-- The top item and the stack without it. -/
def pop? (s : Stack α) : Except StackError (α × Stack α) :=
  match s with
  | [] => .error (.outOfRange (-1) 0)
  | x :: rest => .ok (x, rest)

/-- The addressed item. -/
def top? (s : Stack α) (index : Int) : Except StackError α :=
  match depth? s index with
  | .ok d => .ok (s.get d)
  | .error e => .error e

/-- Puts an item in the place of the addressed one. -/
def set? (s : Stack α) (index : Int) (item : α) : Except StackError (Stack α) :=
  match depth? s index with
  | .ok d => .ok (s.set d item)
  | .error e => .error e

/-- Exchanges two items; a bad first address is reported before a bad second one. -/
def swap? (s : Stack α) (a b : Int) : Except StackError (Stack α) :=
  match depth? s a with
  | .error e => .error e
  | .ok d =>
    match depth? s b with
    | .error e => .error e
    | .ok d' => .ok ((s.set d (s.get d')).set d' (s.get d))

/-- Puts an item in so that it ends up at the address. -/
def insert? (s : Stack α) (index : Int) (item : α) : Except StackError (Stack α) :=
  if index < 0 ∧ index.natAbs ≤ s.length + 1 then
    .ok (s.take (index.natAbs - 1) ++ item :: s.drop (index.natAbs - 1))
  else .error (.outOfRange index s.length)

/-- Takes the addressed item out. -/
def remove? (s : Stack α) (index : Int) : Except StackError (α × Stack α) :=
  match depth? s index with
  | .ok d => .ok (s.get d, s.eraseIdx d)
  | .error e => .error e

/-- Takes out the items from one address up to, but without, another one. -/
def removeRange? (s : Stack α) (first last : Int) : Except StackError (Stack α) :=
  if first ≤ last ∧ last ≤ 0 then
    match depth? s first with
    | .ok d => .ok (s.take last.natAbs ++ s.drop (d + 1))
    | .error _ => .error (.badRange first last s.length)
  else .error (.badRange first last s.length)

end Stack

end BlockRules
