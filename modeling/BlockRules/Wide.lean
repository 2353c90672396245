import BlockRules.Text.Blank
import BlockRules.Hex

/-!
# Wide unsigned integers

`Wide n` is an unsigned integer of `n` words of 32 bits, least significant word
first: `UInt256` for block hashes, transaction ids and targets, `UInt160` for
script and key hashes.

* **value** — `Wide.toNat` reads the words as digits in base `2 ^ 32`, and every
  operation is an operation on words that has a meaning on that number
  (`Wide.ofNat`, shifts, comparison, `Wide.bitLength`);
* **wire form** — `Wide.toBytes` and `Wide.ofBytes?`, in either byte order;
* **display form** — `Wide.toHex` is the big-endian hexadecimal text, that is, the
  reversed wire bytes; `Wide.ofHex?` reads it back, with blanks around it, one
  radix mark in front and digits of either case.
-/

namespace BlockRules

/-- Why a text, a byte string or a number is no value of a fixed-width type. -/
inductive FormatError where
  /-- the text is not hexadecimal -/
  | hex (text : String) (cause : Hex.Error)
  /-- a type of `bits` bits was given `got` bytes -/
  | byteCount (bits got : Nat)
  /-- a number of `needed` bytes was given to a type of `bits` bits -/
  | tooWide (bits needed : Nat)
  /-- a number of `size` bytes was given to the compact target encoder -/
  | targetSize (size : Nat)
  deriving DecidableEq, Repr

/-- The wording of a format error. -/
def FormatError.message : FormatError → String
  | .hex text cause => s!"invalid hex '{text}': {cause.message}"
  | .byteCount bits got => s!"UInt{bits} requires {bits / 8} bytes, got {got}"
  | .tooWide bits needed => s!"value needs {needed} bytes, UInt{bits} holds {bits / 8}"
  | .targetSize size => s!"value of {size} bytes does not fit a compact target"

/-- The least `k` with `n < 2 ^ k`. -/
def bitLength (n : Nat) : Nat := if n = 0 then 0 else n.log2 + 1

/-- The number of bytes a number occupies, none for zero. -/
def byteLength (n : Nat) : Nat := (bitLength n + 7) / 8

/-- Words as digits in base `2 ^ 32`, least significant first. -/
def wordsToNat : List UInt32 → Nat
  | [] => 0
  | w :: ws => w.toNat + 0x100000000 * wordsToNat ws

/-- The low `count` words of a number: each one takes the low 32 bits of what is left. -/
def natToWords : Nat → Nat → List UInt32
  | 0, _ => []
  | count + 1, n => UInt32.ofNat n :: natToWords count (n / 0x100000000)

@[simp] theorem length_natToWords (count n : Nat) : (natToWords count n).length = count := by
  induction count generalizing n with
  | zero => rfl
  | succ count ih => simp [natToWords, ih]

/-- The words times `2 ^ shift` plus a carry, keeping their number: what leaves one
word at the top enters the next one at the bottom. -/
def carryUp (shift : Nat) : Nat → List UInt32 → List UInt32
  | _, [] => []
  | carry, w :: ws =>
    let total := (w.toNat <<< shift) + carry
    UInt32.ofNat total :: carryUp shift (total / 0x100000000) ws

/-- The words divided by `2 ^ shift` for a shift below 32: each word is filled from
the low bits of the next one. -/
def carryDown (shift : Nat) : List UInt32 → List UInt32
  | [] => []
  | w :: ws =>
    let pair := w.toNat + 0x100000000 * (ws.headD 0).toNat
    UInt32.ofNat (pair >>> shift) :: carryDown shift ws

@[simp] theorem length_carryUp (shift carry : Nat) (ws : List UInt32) :
    (carryUp shift carry ws).length = ws.length := by
  induction ws generalizing carry with
  | nil => rfl
  | cons w ws ih => simp [carryUp, ih]

@[simp] theorem length_carryDown (shift : Nat) (ws : List UInt32) :
    (carryDown shift ws).length = ws.length := by
  induction ws with
  | nil => rfl
  | cons w ws ih => simp [carryDown, ih]

/-- The order of two numbers given by equally many words, most significant first. -/
def compareWords : List UInt32 → List UInt32 → Ordering
  | a :: as, b :: bs => (compare a b).then (compareWords as bs)
  | _, _ => .eq

/-- The position of the highest set bit plus one, none being set giving zero. -/
def highestBit : List UInt32 → Nat
  | [] => 0
  | w :: ws =>
    let above := highestBit ws
    if above = 0 then bitLength w.toNat else 32 + above

/-- An unsigned integer of `n` words of 32 bits. -/
structure Wide (n : Nat) where
  /-- the words, least significant first -/
  words : List UInt32
  length_words : words.length = n
  deriving DecidableEq

/-- Block hashes, transaction ids and targets. -/
abbrev UInt256 := Wide 8

/-- Script and key hashes. -/
abbrev UInt160 := Wide 5

namespace Wide

variable {n : Nat}

/-- The number of bits of the type. -/
def width (_ : Wide n) : Nat := 32 * n

/-- The number the words stand for. -/
def toNat (x : Wide n) : Nat := wordsToNat x.words

/-- The low bits of a number. -/
def ofNat (v : Nat) : Wide n := ⟨natToWords n v, length_natToWords n v⟩

/-- The number zero. -/
def zero : Wide n := ofNat 0

/-- The number one. -/
def one : Wide n := ofNat 1

instance : Inhabited (Wide n) := ⟨zero⟩

instance : Repr (Wide n) := ⟨fun x _ => s!"{x.toNat}"⟩

/-- All words are zero. -/
def isZero (x : Wide n) : Bool := x.words.all (· = 0)

/-- A number that fits the type. -/
def ofNat? (v : Nat) : Except FormatError (Wide n) :=
  if byteLength v ≤ 4 * n then .ok (ofNat v) else .error (.tooWide (32 * n) (byteLength v))

/-- The low 64 bits. -/
def low64 (x : Wide n) : UInt64 :=
  UInt64.ofNat (wordsToNat (x.words.take 2))

/-- The position of the highest set bit plus one, zero for zero. -/
def bitLength (x : Wide n) : Nat := highestBit x.words

/-- The order of the values. -/
def cmp (x y : Wide n) : Ordering := compareWords x.words.reverse y.words.reverse

/-- The value is at most the other one. -/
def le (x y : Wide n) : Bool := (cmp x y).isLE

/-- The value is below the other one. -/
def lt (x y : Wide n) : Bool := (cmp x y).isLT

/-- The value times `2 ^ shift`, as far as the type holds it: whole words move up and
the rest of the shift carries from word to word. -/
def shiftLeft (x : Wide n) (shift : UInt32) : Wide n :=
  let moved := min (shift.toNat / 32) n
  ⟨List.replicate moved 0 ++ carryUp (shift.toNat % 32) 0 (x.words.take (n - moved)), by
    simp [x.length_words]; omega⟩

/-- The value divided by `2 ^ shift`, rounded down. -/
def shiftRight (x : Wide n) (shift : UInt32) : Wide n :=
  let moved := min (shift.toNat / 32) n
  ⟨carryDown (shift.toNat % 32) (x.words.drop moved) ++ List.replicate moved 0, by
    simp [x.length_words]; omega⟩

/-! ### Bytes -/

/-- The words that consecutive groups of four bytes stand for. -/
def wordsOfBytes : Nat → Bytes → List UInt32
  | 0, _ => []
  | count + 1, bs => UInt32.ofNat (Bytes.toNat (bs.take 4)) :: wordsOfBytes count (bs.drop 4)

@[simp] theorem length_wordsOfBytes (count : Nat) (bs : Bytes) :
    (wordsOfBytes count bs).length = count := by
  induction count generalizing bs with
  | zero => rfl
  | succ count ih => simp [wordsOfBytes, ih]

/-- The value with the given bytes, least significant first. -/
def ofBytesLE (bs : Bytes) : Wide n := ⟨wordsOfBytes n bs, length_wordsOfBytes n bs⟩

/-- The value with the given bytes, which must be as many as the type has. -/
def ofBytes? (littleEndian : Bool) (bs : Bytes) : Except FormatError (Wide n) :=
  if bs.length = 4 * n then .ok (ofBytesLE (if littleEndian then bs else bs.reverse))
  else .error (.byteCount (32 * n) bs.length)

/-- The bytes of a value, least significant first. -/
def bytesLE (x : Wide n) : Bytes := x.words.flatMap fun w => Bytes.ofNat 4 w.toNat

/-- The bytes of a value in the given order. -/
def toBytes (littleEndian : Bool) (x : Wide n) : Bytes :=
  if littleEndian then x.bytesLE else x.bytesLE.reverse

theorem length_bytesLE (x : Wide n) : x.bytesLE.length = 4 * n := by
  have each : ∀ ws : List UInt32,
      (ws.flatMap fun w => Bytes.ofNat 4 w.toNat).length = 4 * ws.length := by
    intro ws
    induction ws with
    | nil => rfl
    | cons w ws ih =>
      rw [List.flatMap_cons, List.length_append, ih, Bytes.length_ofNat, List.length_cons]
      omega
  rw [bytesLE, each, x.length_words]

/-! ### Text -/

/-- The display form: big-endian hexadecimal digits. -/
def toHex (x : Wide n) : String := Hex.encode (x.toBytes false)

/-- A text without one radix mark at its front. -/
def stripRadix : List Char → List Char
  | '0' :: 'x' :: rest => rest
  | '0' :: 'X' :: rest => rest
  | cs => cs

/-- Reads the display form. -/
def ofHex? (text : String) : Except FormatError (Wide n) :=
  match Hex.decode (Hex.utf8 (stripRadix (Text.trim text.toList))) with
  | .ok bs => ofBytes? false bs
  | .error cause => .error (.hex text cause)

/-- The value with its type's name around the display form. -/
def named (x : Wide n) : String := s!"UInt{32 * n}({x.toHex})"

end Wide

end BlockRules
