import BlockRules.Transaction
import BlockRules.Script.Edit

/-!
# Signature hashes

A signature over an input signs a summary of the transaction. What the summary covers
depends on the hash type, the byte behind every signature: all outputs, none or the one
with the input's index, and all inputs or only the signed one.

There are two summaries:

* the legacy one (`legacyPreimage`) is the transaction's own encoding with the parts
  that are not signed blanked out. An input that does not exist, or a single output that
  does not, is signed by the hash one (`hasLegacyPreimage`);
* the one for witnesses (`witnessPreimage`) is a sequence of hashes of all outpoints, all
  sequences and all outputs, and of the fields of the signed input. The three hashes do
  not depend on the input and can be computed beforehand (`SharedHashes`).
-/

namespace BlockRules

/-- Which of the two summaries a signature signs. -/
inductive SigVersion where
  | legacy
  | witnessV0
  deriving DecidableEq, Repr, Inhabited

/-- The word that says what a signature covers. -/
structure HashType where
  raw : UInt32
  deriving DecidableEq, Repr, Inhabited

namespace HashType

/-- The low five bits: which outputs are signed. -/
def base (t : HashType) : UInt32 := t.raw &&& 0x1f

/-- No output is signed. -/
def isNone (t : HashType) : Bool := t.base == 2

/-- The output with the index of the signed input is signed. -/
def isSingle (t : HashType) : Bool := t.base == 3

/-- Only the signed input is signed. -/
def anyoneCanPay (t : HashType) : Bool := t.raw &&& 0x80 != 0

/-- The same outputs, and only the signed input. -/
def withAnyoneCanPay (t : HashType) : HashType := ⟨t.raw ||| 0x80⟩

/-- One of the three base types, with or without `anyoneCanPay`. -/
def isDefined (t : HashType) : Bool :=
  let rest := t.raw &&& ~~~0x80
  1 ≤ rest && rest ≤ 3

/-- The wording of a hash type. -/
def display (t : HashType) : String := s!"SigHash(0x{Hex.padded 2 t.raw.toNat})"

end HashType

/-- The hashes of a whole transaction that every witness signature over it signs. -/
structure SharedHashes where
  prevouts : UInt256
  sequences : UInt256
  outputs : UInt256
  deriving DecidableEq, Repr, Inhabited

/-- These hashes, worked out once for all inputs. -/
def SharedHashes.ofTransaction (tx : Transaction) : SharedHashes :=
  { prevouts := doubleSha256 (tx.inputs.flatMap fun i => i.prevout.encode)
    sequences := doubleSha256 (tx.inputs.flatMap fun i => Wire.uint32 i.sequence)
    outputs := doubleSha256 (tx.outputs.flatMap TxOutput.encode) }

namespace SigHash

/-- The output that stands in the place of one that is not signed. -/
def blankOutput : TxOutput := ⟨-1, []⟩

/-- The inputs as the legacy summary shows them: the signed one with the script code,
the others without script, and without sequence unless all outputs are signed. -/
def blankedInputs (code : Bytes) (tx : Transaction) (index : Nat) (t : HashType) : List TxInput :=
  tx.inputs.mapIdx fun i input =>
    if i = index then { input with scriptSig := code }
    else
      { input with
        scriptSig := []
        sequence := if t.isNone || t.isSingle then 0 else input.sequence }

/-- The outputs as the legacy summary shows them. -/
def blankedOutputs (tx : Transaction) (index : Nat) (t : HashType) : List TxOutput :=
  if t.isNone then []
  else if t.isSingle then List.replicate index blankOutput ++ (tx.outputs.drop index).take 1
  else tx.outputs

/-- The input exists, and so does the output, if it is to be signed alone. -/
def hasLegacyPreimage (tx : Transaction) (index : Nat) (t : HashType) : Bool :=
  index < tx.inputs.length && !(t.isSingle && tx.outputs.length ≤ index)

/-- The legacy summary. -/
def legacyPreimage (code : Bytes) (tx : Transaction) (index : Nat) (t : HashType) : Bytes :=
  let inputs := blankedInputs (Script.removeCodeSeparators code) tx index t
  let shown := if t.anyoneCanPay then (inputs.drop index).take 1 else inputs
  tx.encodeHead
    ++ Wire.list TxInput.encode shown
    ++ Wire.list TxOutput.encode (blankedOutputs tx index t)
    ++ Wire.uint32 tx.lockTime
    ++ Wire.uint32 t.raw

/-- The hash of the legacy summary. -/
def legacy (code : Bytes) (tx : Transaction) (index : Nat) (t : HashType) : UInt256 :=
  if hasLegacyPreimage tx index t then doubleSha256 (legacyPreimage code tx index t)
  else Wide.one

/-- The hash that stands for the signed outputs in the summary for witnesses. -/
def witnessOutputs (shared : SharedHashes) (tx : Transaction) (index : Nat)
    (t : HashType) : UInt256 :=
  if t.isNone then Wide.zero
  else if t.isSingle then
    match tx.outputs[index]? with
    | some output => doubleSha256 output.encode
    | none => Wide.zero
  else shared.outputs

/-- The summary for witnesses of a transaction and one of its inputs. -/
def witnessPreimage (shared : SharedHashes) (code : Bytes) (tx : Transaction) (index : Nat)
    (input : TxInput) (t : HashType) (amount : Int64) : Bytes :=
  let allSequences := !(t.anyoneCanPay || t.isSingle || t.isNone)
  Wire.int32 tx.version
    ++ Wire.uint256 (if t.anyoneCanPay then Wide.zero else shared.prevouts)
    ++ Wire.uint256 (if allSequences then shared.sequences else Wide.zero)
    ++ input.prevout.encode
    ++ Wire.varBytes code
    ++ Wire.int64 amount
    ++ Wire.uint32 input.sequence
    ++ Wire.uint256 (witnessOutputs shared tx index t)
    ++ Wire.uint32 tx.lockTime
    ++ Wire.uint32 t.raw

end SigHash

/-- An input index beyond the inputs of a transaction. -/
structure NoSuchInput where
  index : Nat
  count : Nat
  deriving DecidableEq, Repr

/-- The wording of the error. -/
def NoSuchInput.message (e : NoSuchInput) : String :=
  s!"input index {e.index} out of range for {e.count} inputs"

/-- The hash that a signature over an input signs. Hashes of the whole transaction that
are given are used as they are; others are computed. -/
def signatureHash (code : Bytes) (tx : Transaction) (index : Nat) (t : HashType) (amount : Int64)
    (version : SigVersion) (shared : Option SharedHashes) : Except NoSuchInput UInt256 :=
  match version with
  | .legacy => .ok (SigHash.legacy code tx index t)
  | .witnessV0 =>
    match tx.inputs[index]? with
    | none => .error ⟨index, tx.inputs.length⟩
    | some input =>
      let shared := shared.getD (SharedHashes.ofTransaction tx)
      .ok (doubleSha256 (SigHash.witnessPreimage shared code tx index input t amount))

end BlockRules
