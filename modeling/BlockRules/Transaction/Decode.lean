import BlockRules.Network
import BlockRules.Wire.Decode

/-!
# Decoding transactions

The inverse of `Transaction.encode`. An input count of zero is ambiguous by design: the
byte behind it is either the flag byte of a witness encoding or, if it is zero, the
output count of a transaction that has neither inputs nor outputs.

A witness encoding must hold some witness, and the flag byte no bit but the lowest, so
that no two encodings stand for one transaction.
-/

namespace BlockRules

namespace Decoder

/-- An outpoint. -/
def outPoint : Decoder OutPoint := do
  let hash ← uint256
  let index ← uint32
  return { hash, index }

/-- An input as it stands before the outputs, with no witness yet. -/
def txInput : Decoder TxInput := do
  let prevout ← outPoint
  let scriptSig ← varBytes
  let sequence ← uint32
  return { prevout, scriptSig, sequence }

/-- An output. -/
def txOutput : Decoder TxOutput := do
  let value ← int64
  let scriptPubkey ← varBytes
  return { value, scriptPubkey }

/-- The inputs with the witnesses that are read for them, in order. -/
def witnesses : List TxInput → Decoder (List TxInput)
  | [] => pure []
  | i :: is => do
    let witness ← list varBytes
    let is ← witnesses is
    return { i with witness } :: is

/-- What a nonzero flag byte announces: witnesses for the given inputs and nothing else. -/
def optionalData (flags : UInt8) (inputs : List TxInput) : Decoder (List TxInput) := do
  if flags &&& 1 = 0 then fail (.unknownOptionalData flags)
  else
    let inputs ← witnesses inputs
    if inputs.all fun i => i.witness.isEmpty then fail .superfluousWitness
    else if flags ≠ 1 then fail (.unknownOptionalData (flags ^^^ 1))
    else return inputs

/-- Inputs and outputs, with the witnesses if there are any. -/
def txBody : Decoder (List TxInput × List TxOutput) := do
  let inputs ← list txInput
  if inputs.isEmpty then
    let flags ← byte
    if flags = 0 then return ([], [])
    else
      let inputs ← list txInput
      let outputs ← list txOutput
      let inputs ← optionalData flags inputs
      return (inputs, outputs)
  else
    let outputs ← list txOutput
    return (inputs, outputs)

/-- The time of a transaction, on a network that has one. -/
def txTime (network : Network) : Decoder (Option UInt32) :=
  if network.hasTime then do return some (← uint32) else return none

/-- A transaction of a network. -/
def transaction (network : Network) : Decoder Transaction := do
  let version ← int32
  let time ← txTime network
  let (inputs, outputs) ← txBody
  let lockTime ← uint32
  return { version, time, inputs, outputs, lockTime }

end Decoder

/-- The transaction a byte string as a whole stands for. -/
def Transaction.decode? (network : Network) (bs : Bytes) : Except DecodeError Transaction :=
  (Decoder.transaction network).exactly bs

end BlockRules
