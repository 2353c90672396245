import BlockRules.Wide

/-!
# Wire encoding

How the primitive values of consensus objects become bytes. Integers are
little-endian unless said otherwise; signed ones are written by their two's
complement bits. A count is written in the shortest of four forms (`compactSize`),
and byte strings and lists are written behind their count.
-/

namespace BlockRules.Wire

/-- One byte. -/
def byte (v : UInt8) : Bytes := [v]

/-- Two bytes. -/
def uint16 (v : UInt16) : Bytes := Bytes.ofNat 2 v.toNat

/-- Four bytes. -/
def uint32 (v : UInt32) : Bytes := Bytes.ofNat 4 v.toNat

/-- Four bytes, most significant first. -/
def uint32BE (v : UInt32) : Bytes := (uint32 v).reverse

/-- Eight bytes. -/
def uint64 (v : UInt64) : Bytes := Bytes.ofNat 8 v.toNat

/-- Four bytes, a sign in the top bit. -/
def int32 (v : Int32) : Bytes := uint32 v.toUInt32

/-- Eight bytes, a sign in the top bit. -/
def int64 (v : Int64) : Bytes := uint64 v.toUInt64

/-- The 32 bytes of a hash, as they are hashed. -/
def uint256 (v : UInt256) : Bytes := v.bytesLE

/-- A count in one, three, five or nine bytes, the shortest that holds it. The longer
forms start with a mark byte. -/
def compactSize (n : Nat) : Bytes :=
  if n < 0xfd then [UInt8.ofNat n]
  else if n < 0x10000 then 0xfd :: Bytes.ofNat 2 n
  else if n < 0x100000000 then 0xfe :: Bytes.ofNat 4 n
  else 0xff :: Bytes.ofNat 8 n

/-- A byte string behind its length. -/
def varBytes (bs : Bytes) : Bytes := compactSize bs.length ++ bs

/-- A list behind its length. -/
def list {α : Type} (encode : α → Bytes) (xs : List α) : Bytes :=
  compactSize xs.length ++ xs.flatMap encode

end BlockRules.Wire
