import BlockRules.Header

/-!
# Blocks

A header and the transactions it summarises.
-/

namespace BlockRules

/-- A header with the transactions it summarises. -/
structure Block where
  header : Header
  transactions : List Transaction
  deriving DecidableEq, Inhabited

/-- The encoding of a block: its header, and its transactions behind their count. -/
def Block.encode (b : Block) : Bytes :=
  b.header.encode ++ Wire.list Transaction.encode b.transactions

/-- The empty block of a network. -/
def Network.block (network : Network) : Block := { header := network.header, transactions := [] }

/-- A block of a network. -/
def Decoder.block (network : Network) : Decoder Block := do
  let header ← Decoder.header network
  let transactions ← Decoder.list (Decoder.transaction network)
  return { header, transactions }

/-- The block a byte string as a whole stands for. -/
def Block.decode? (network : Network) (bs : Bytes) : Except DecodeError Block :=
  (Decoder.block network).exactly bs

end BlockRules
