import BlockRules.Wire.Encode

/-!
# Wire decoding

A `Decoder` reads a value from the front of a byte string. What it has consumed when
it fails stays consumed, so a failing decoder also says where it stopped.

* **cursor** — the bytes that remain and the number of bytes before them;
* **causes** — `DecodeError`, with the counts and offsets that its wording shows;
* **primitives** — `take`, fixed-width integers, `compactSize`, which rejects a count
  that a shorter form could hold, and `length`, which also rejects a count larger
  than the number of bytes that remain;
* **whole objects** — `Decoder.exactly` rejects bytes after the object.
-/

namespace BlockRules

/-- Why bytes are no consensus object. -/
inductive DecodeError where
  | endOfStream (need offset available : Nat)
  | nonCanonicalSize (value : Nat)
  | lengthExceeds (declared remaining : Nat)
  | superfluousWitness
  | unknownOptionalData (flags : UInt8)
  | noCoinstake (header : UInt256)
  | trailingBytes (count : Nat)
  deriving DecidableEq, Repr

/-- The wording of a decoding error. -/
def DecodeError.message : DecodeError → String
  | .endOfStream need offset available =>
    s!"unexpected end of stream: need {need} bytes at offset {offset}, have {available}"
  | .nonCanonicalSize value => s!"non-canonical compact size {value}"
  | .lengthExceeds declared remaining =>
    s!"declared length {declared} exceeds remaining {remaining} bytes"
  | .superfluousWitness => "superfluous witness record"
  | .unknownOptionalData flags =>
    s!"unknown transaction optional data 0x{Hex.encode [flags]}"
  | .noCoinstake header => s!"proven header {header.toHex} does not carry a coinstake"
  | .trailingBytes count => s!"{count} trailing bytes after object"

/-- A position in a byte string. -/
structure Cursor where
  /-- the bytes that remain -/
  rest : Bytes
  /-- the number of bytes before them -/
  offset : Nat := 0
  deriving DecidableEq, Repr

/-- Reads a value and moves the cursor, whether or not it succeeds. -/
def Decoder (α : Type) := Cursor → Except DecodeError α × Cursor

namespace Decoder

variable {α β : Type}

/-- Runs a decoder and, if it succeeds, the one its value selects. -/
def andThen (d : Decoder α) (next : α → Decoder β) : Decoder β := fun c =>
  match d c with
  | (.ok a, c') => next a c'
  | (.error e, c') => (.error e, c')

instance : Monad Decoder where
  pure a := fun c => (.ok a, c)
  bind := andThen

theorem bind_ok {d : Decoder α} {next : α → Decoder β} {c c' : Cursor} {a : α}
    (h : d c = (.ok a, c')) : (d >>= next) c = next a c' := by
  show andThen d next c = _
  rw [andThen, h]

theorem bind_error {d : Decoder α} {next : α → Decoder β} {c c' : Cursor} {e : DecodeError}
    (h : d c = (.error e, c')) : (d >>= next) c = (.error e, c') := by
  show andThen d next c = _
  rw [andThen, h]

theorem pure_apply (a : α) (c : Cursor) : (pure a : Decoder α) c = (.ok a, c) := rfl

/-- Fails without consuming anything. -/
def fail (e : DecodeError) : Decoder α := fun c => (.error e, c)

/-- The next `n` bytes; if fewer remain, none of them is consumed. -/
def take (n : Nat) : Decoder Bytes := fun c =>
  match Bytes.split? n c.rest with
  | some (front, rest) => (.ok front, ⟨rest, c.offset + n⟩)
  | none => (.error (.endOfStream n c.offset c.rest.length), c)

/-- The number that the next `n` bytes stand for, least significant first. -/
def number (n : Nat) : Decoder Nat := do return Bytes.toNat (← take n)

/-- One byte. -/
def byte : Decoder UInt8 := do return UInt8.ofNat (← number 1)

/-- Two bytes. -/
def uint16 : Decoder UInt16 := do return UInt16.ofNat (← number 2)

/-- Four bytes. -/
def uint32 : Decoder UInt32 := do return UInt32.ofNat (← number 4)

/-- Four bytes, most significant first. -/
def uint32BE : Decoder UInt32 := do return UInt32.ofNat (Bytes.toNat (← take 4).reverse)

/-- Eight bytes. -/
def uint64 : Decoder UInt64 := do return UInt64.ofNat (← number 8)

/-- Four bytes as a signed number. -/
def int32 : Decoder Int32 := do return (← uint32).toInt32

/-- Eight bytes as a signed number. -/
def int64 : Decoder Int64 := do return (← uint64).toInt64

/-- The 32 bytes of a hash, as they are hashed. -/
def uint256 : Decoder UInt256 := do return Wide.ofBytesLE (← take 32)

/-- A number that must not be below the least one its form is meant for. -/
def atLeast (least : Nat) (d : Decoder Nat) : Decoder Nat := do
  let value ← d
  if value < least then fail (.nonCanonicalSize value) else return value

/-- A count in its shortest form. -/
def compactSize : Decoder Nat := do
  let first ← byte
  if first = 0xfd then atLeast 0xfd (number 2)
  else if first = 0xfe then atLeast 0x10000 (number 4)
  else if first = 0xff then atLeast 0x100000000 (number 8)
  else return first.toNat

/-- A count that the remaining bytes could hold at one byte for each element. -/
def length : Decoder Nat := do
  let declared ← compactSize
  fun c =>
    if c.rest.length < declared then (.error (.lengthExceeds declared c.rest.length), c)
    else (.ok declared, c)

/-- A byte string behind its length. -/
def varBytes : Decoder Bytes := do take (← length)

/-- The given number of values. -/
def times (d : Decoder α) : Nat → Decoder (List α)
  | 0 => pure []
  | n + 1 => do
    let x ← d
    let xs ← times d n
    return x :: xs

/-- A list behind its length. -/
def list (d : Decoder α) : Decoder (List α) := do times d (← length)

/-- The value that a byte string as a whole stands for. -/
def exactly (d : Decoder α) (bs : Bytes) : Except DecodeError α :=
  match d { rest := bs } with
  | (.error e, _) => .error e
  | (.ok a, c) => if c.rest.isEmpty then .ok a else .error (.trailingBytes c.rest.length)

end Decoder

end BlockRules
