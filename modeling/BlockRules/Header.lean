import BlockRules.Target
import BlockRules.Transaction.Decode

/-!
# Block headers

A header of 80 bytes names its parent and a summary of the block's transactions, and
its own hash must meet the target it states. On a proof-of-stake network evidence of
the stake stands behind it: a proof that a coinstake is part of the block, the staker's
signature and the coinstake itself. A header is named by its 80 bytes alone.
-/

namespace BlockRules

/-- The 80-byte header. -/
structure BlockHeader where
  version : Int32
  previous : UInt256
  merkleRoot : UInt256
  time : UInt32
  bits : Target
  nonce : UInt32
  deriving DecidableEq, Inhabited

/-- What a proof-of-stake header carries besides. -/
structure StakeEvidence where
  merkleProof : Bytes
  signature : Bytes
  coinstake : Transaction
  deriving DecidableEq, Inhabited

/-- A header of either kind of network. -/
inductive Header where
  | plain (base : BlockHeader)
  | proven (base : BlockHeader) (evidence : StakeEvidence)
  deriving DecidableEq, Inhabited

/-- The 80 bytes of a header. They are what is hashed. -/
def BlockHeader.encode (h : BlockHeader) : Bytes :=
  Wire.int32 h.version ++ Wire.uint256 h.previous ++ Wire.uint256 h.merkleRoot
    ++ Wire.uint32 h.time ++ Wire.uint32 h.bits.compact ++ Wire.uint32 h.nonce

/-- The name of the header and of its block. -/
def BlockHeader.hash (h : BlockHeader) : UInt256 := doubleSha256 h.encode

/-- The hash meets the target that the header states. -/
def BlockHeader.meetsTarget (h : BlockHeader) : Bool := h.bits.isMetBy h.hash

/-- The encoding of the evidence, which stands behind the 80 bytes. -/
def StakeEvidence.encode (e : StakeEvidence) : Bytes :=
  Wire.varBytes e.merkleProof ++ Wire.varBytes e.signature ++ e.coinstake.encode

namespace Header

/-- The 80-byte header that both kinds share. -/
def base : Header → BlockHeader
  | .plain base => base
  | .proven base _ => base

/-- Evidence of a stake comes with the header. -/
def isProven : Header → Bool
  | .plain _ => false
  | .proven _ _ => true

/-- The name of the header. The evidence has no part in it. -/
def hash (h : Header) : UInt256 := h.base.hash

/-- The encoding of a header of either kind. -/
def encode : Header → Bytes
  | .plain base => base.encode
  | .proven base evidence => base.encode ++ evidence.encode

end Header

/-- The empty header of a network. -/
def Network.header (network : Network) : Header :=
  let base : BlockHeader :=
    { version := 1, previous := Wide.zero, merkleRoot := Wide.zero, time := 0, bits := ⟨0⟩,
      nonce := 0 }
  match network with
  | .proofOfWork => .plain base
  | .proofOfStake =>
    .proven base { merkleProof := [], signature := [], coinstake := network.transaction }

namespace Decoder

/-- The 80 bytes of a header, read back. -/
def blockHeader : Decoder BlockHeader := do
  let version ← int32
  let previous ← uint256
  let merkleRoot ← uint256
  let time ← uint32
  let bits ← uint32
  let nonce ← uint32
  return { version, previous, merkleRoot, time, bits := ⟨bits⟩, nonce }

/-- The evidence behind a header; the transaction in it must be a coinstake. -/
def stakeEvidence (network : Network) (base : BlockHeader) : Decoder StakeEvidence := do
  let merkleProof ← varBytes
  let signature ← varBytes
  let coinstake ← transaction network
  if coinstake.isCoinstake then return { merkleProof, signature, coinstake }
  else fail (.noCoinstake base.hash)

/-- A header of a network. -/
def header (network : Network) : Decoder Header := do
  let base ← blockHeader
  match network with
  | .proofOfWork => return .plain base
  | .proofOfStake => return .proven base (← stakeEvidence network base)

end Decoder

/-- The header a byte string as a whole stands for. -/
def Header.decode? (network : Network) (bs : Bytes) : Except DecodeError Header :=
  (Decoder.header network).exactly bs

end BlockRules
