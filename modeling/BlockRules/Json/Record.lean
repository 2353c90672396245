import BlockRules.Json.Parse
import BlockRules.Bytes

/-!
# Reading and writing data as JSON

How values of other types are read off JSON values. The rules for records:

* a record is an object with a member for each field, in any order, other members being
  ignored and repeated ones refused; or it is an array of the fields in order;
* a field may be left out if it has a default. In an array only fields at the end can be.

Integers must be written as such and fit their type. A choice among names is a string,
or an object whose only key is the name and whose value is null.
-/

namespace BlockRules.Json

/-- An integer between two bounds, both included. -/
def toRange? (low high : Int) : Json → Option Int
  | .integer n => if low ≤ n ∧ n ≤ high then some n else none
  | _ => none

/-- A number that fits a byte. -/
def toUInt8? (j : Json) : Option UInt8 := (j.toRange? 0 0xff).map fun n => UInt8.ofNat n.toNat

/-- A number that fits a word of 32 bits. -/
def toUInt32? (j : Json) : Option UInt32 :=
  (j.toRange? 0 0xffffffff).map fun n => UInt32.ofNat n.toNat

/-- A number that fits a word of 64 bits. -/
def toUInt64? (j : Json) : Option UInt64 :=
  (j.toRange? 0 0xffffffffffffffff).map fun n => UInt64.ofNat n.toNat

/-- A signed number that fits 32 bits. -/
def toInt32? (j : Json) : Option Int32 := (j.toRange? (-0x80000000) 0x7fffffff).map Int32.ofInt

/-- A signed number that fits 64 bits. -/
def toInt64? (j : Json) : Option Int64 :=
  (j.toRange? (-0x8000000000000000) 0x7fffffffffffffff).map Int64.ofInt

/-- A truth value; no number stands for one. -/
def toBool? : Json → Option Bool
  | .bool b => some b
  | _ => none

/-- A string that has a content. -/
def toText? : Json → Option String
  | .string content => content
  | _ => none

/-- Nothing for null, and otherwise a value. -/
def toOption? {α : Type} (read : Json → Option α) : Json → Option (Option α)
  | .null => some none
  | j => (read j).map some

/-- The elements of an array, if each of them can be read. -/
def toList? {α : Type} (read : Json → Option α) : Json → Option (List α)
  | .array elements => elements.mapM read
  | _ => none

/-- A byte string is an array of numbers. -/
def toBytes? : Json → Option Bytes := toList? toUInt8?

/-- A name out of several. -/
def toName? : Json → Option String
  | .string content => content
  | .object [(key, .null)] => key
  | _ => none

/-- The values of the fields with the given names, where there are any. -/
def toFields? (names : List String) : Json → Option (List (Option Json))
  | .array elements =>
    if names.length < elements.length then none
    else some (elements.map some ++ List.replicate (names.length - elements.length) none)
  | .object members =>
    let keys := members.map Prod.fst
    if keys.any Option.isNone then none
    else if names.any fun name => 1 < keys.count (some name) then none
    else some (names.map fun name => members.lookup (some name))
  | _ => none

/-- A field that must be there. -/
def required {α : Type} (read : Json → Option α) (field : Option Json) : Option α :=
  field.bind read

/-- A field that has a default. -/
def withDefault {α : Type} (default : α) (read : Json → Option α) : Option Json → Option α
  | none => some default
  | some j => read j

/-! ### Writing -/

/-- The value for a number. -/
def ofNat (n : Nat) : Json := .integer n

/-- The value for a text. -/
def ofText (s : String) : Json := .string (some s)

/-- The value for something that may be missing: null if it is. -/
def ofOption {α : Type} (write : α → Json) : Option α → Json
  | none => .null
  | some a => write a

/-- An array of what is written for each element. -/
def ofList {α : Type} (write : α → Json) (xs : List α) : Json := .array (xs.map write)

/-- An array of the bytes as numbers. -/
def ofBytes (bs : Bytes) : Json := ofList (fun b => ofNat b.toNat) bs

/-- An object with the given members. -/
def record (fields : List (String × Json)) : Json :=
  .object (fields.map fun (name, j) => (some name, j))

end BlockRules.Json
