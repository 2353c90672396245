import BlockRules.Block
import BlockRules.Bytes.Lemmas
import BlockRules.Chain.Forest
import BlockRules.Error
import BlockRules.Json.Consensus
import BlockRules.Proofs.Chain.Credit
import BlockRules.Proofs.Chain.Faults
import BlockRules.Proofs.Chain.Fork
import BlockRules.Proofs.Chain.Locator
import BlockRules.Proofs.Chain.MedianTime
import BlockRules.Proofs.Chain.Reciprocal
import BlockRules.Proofs.Chain.Replacement
import BlockRules.Proofs.Chain.RequiredBits
import BlockRules.Proofs.Chain.RetargetBounds
import BlockRules.Proofs.Chain.Timestamps
import BlockRules.Proofs.Chain.Work
import BlockRules.Proofs.Script.Acceptance
import BlockRules.Proofs.Script.Breakdowns
import BlockRules.Proofs.Script.Budget
import BlockRules.Proofs.Script.Built
import BlockRules.Proofs.Script.ColdStake
import BlockRules.Proofs.Script.Composites
import BlockRules.Proofs.Script.Conditionals
import BlockRules.Proofs.Script.Deletion
import BlockRules.Proofs.Script.Filters
import BlockRules.Proofs.Script.Frames
import BlockRules.Proofs.Script.KeyHash
import BlockRules.Proofs.Script.Limits
import BlockRules.Proofs.Script.Matching
import BlockRules.Proofs.Script.PushForms
import BlockRules.Proofs.Script.RelativeLocks
import BlockRules.Proofs.Script.Separators
import BlockRules.Proofs.Script.Settlement
import BlockRules.Proofs.Script.SignedCode
import BlockRules.Proofs.Script.SoftFork
import BlockRules.Proofs.Script.StoredItems
import BlockRules.Proofs.Script.StrictDer
import BlockRules.Proofs.Script.Templates
import BlockRules.Proofs.Script.Underneath
import BlockRules.Proofs.Script.WitnessSpends
import BlockRules.Proofs.Script.Wrapping
import BlockRules.Proofs.SigHash.Legacy
import BlockRules.Proofs.SigHash.Time
import BlockRules.Proofs.SigHash.Witness
import BlockRules.Proofs.Spend.Independence
import BlockRules.Proofs.Spend.SharedHashes
import BlockRules.Proofs.Target.FixedWidth
import BlockRules.Proofs.Wide.Text
import BlockRules.Proofs.Wide.Value
import BlockRules.Proofs.Wire.Blocks
import BlockRules.Proofs.Wire.Identity
import BlockRules.Script.Assembly
import BlockRules.Wide.Lemmas
