import BlockRules.Transaction

/-!
# Networks

The two kinds of network differ in what their streams carry: a proof-of-stake network
puts a time into every transaction and evidence of the stake behind every header.
Decoders and templates take the network as an argument.
-/

namespace BlockRules

/-- The kinds of network. -/
inductive Network where
  | proofOfWork
  | proofOfStake
  deriving DecidableEq, Repr, Inhabited

/-- The empty transaction of a network. -/
def Network.transaction : Network → Transaction
  | .proofOfWork => { version := 1, inputs := [], outputs := [], lockTime := 0 }
  | .proofOfStake => { version := 1, time := some 0, inputs := [], outputs := [], lockTime := 0 }

/-- Whether transactions of a network carry a time. -/
def Network.hasTime : Network → Bool
  | .proofOfWork => false
  | .proofOfStake => true

end BlockRules
