import BlockRules.Bytes

/-!
# Hash functions over blocks

The three hash functions of this library share one construction: the message is
filled up to whole blocks of 64 bytes, which end with the message's length in bits,
and a state is compressed with one block after another. A `Scheme` is what differs:
the byte order, the initial state, the compression of one block and the words that
are shown of the final state.
-/

namespace BlockRules.Digest

/-- A hash function given by its compression of one block of sixteen words. -/
structure Scheme (State : Type) where
  bigEndian : Bool
  initial : State
  compress : State → Array UInt32 → State
  output : State → List UInt32

/-- The four bytes of a word in the given order. -/
def wordBytes (bigEndian : Bool) (w : UInt32) : Bytes :=
  let low := Bytes.ofNat 4 w.toNat
  if bigEndian then low.reverse else low

/-- The words that consecutive groups of four bytes stand for. -/
def words (bigEndian : Bool) : Bytes → List UInt32
  | a :: b :: c :: d :: rest =>
    let group := if bigEndian then [d, c, b, a] else [a, b, c, d]
    UInt32.ofNat (Bytes.toNat group) :: words bigEndian rest
  | _ => []

/-- The message, one set bit, zeros, and the message's length in bits. -/
def padded (bigEndian : Bool) (message : Bytes) : Bytes :=
  let zeros := (119 - message.length % 64) % 64
  let size := Bytes.ofNat 8 (8 * message.length)
  message ++ 0x80 :: List.replicate zeros 0 ++ (if bigEndian then size.reverse else size)

/-- Compresses the given number of blocks. -/
def absorb {State : Type} (scheme : Scheme State) : Nat → Bytes → State → State
  | 0, _, state => state
  | count + 1, bs, state =>
    let block := (words scheme.bigEndian (bs.take 64)).toArray
    absorb scheme count (bs.drop 64) (scheme.compress state block)

/-- The hash of a message. -/
def Scheme.digest {State : Type} (scheme : Scheme State) (message : Bytes) : Bytes :=
  let blocks := padded scheme.bigEndian message
  let final := absorb scheme (blocks.length / 64) blocks scheme.initial
  (scheme.output final).flatMap (wordBytes scheme.bigEndian)

/-- The bits of a word moved up by `k`, those that leave at the top entering at the bottom. -/
def rotateLeft (w k : UInt32) : UInt32 := (w <<< k) ||| (w >>> (32 - k))

/-- The bits of a word moved down by `k`, those that leave at the bottom entering at the top. -/
def rotateRight (w k : UInt32) : UInt32 := (w >>> k) ||| (w <<< (32 - k))

theorem length_wordBytes (bigEndian : Bool) (w : UInt32) : (wordBytes bigEndian w).length = 4 := by
  cases bigEndian <;> simp [wordBytes]

/-- A hash has four bytes for every word of the output. -/
theorem length_flatMap_wordBytes (bigEndian : Bool) (ws : List UInt32) :
    (ws.flatMap (wordBytes bigEndian)).length = 4 * ws.length := by
  induction ws with
  | nil => rfl
  | cons w ws ih =>
    rw [List.flatMap_cons, List.length_append, ih, length_wordBytes, List.length_cons]
    omega

end BlockRules.Digest
