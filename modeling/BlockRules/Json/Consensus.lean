import BlockRules.Header
import BlockRules.Json.Record
import BlockRules.Params
import BlockRules.Script.Error
import BlockRules.Script.Flags
import BlockRules.SigHash

/-!
# Consensus data as JSON

For each type that has a JSON form, what is written (`toJson`) and what is read
(`ofJson?`). Hashes are strings in their display form, words are numbers, and the mark of
a cold stake is left out. Reading accepts more than writing gives: see `Json.toFields?`
for records and `Wide.ofHex?` for hashes.
-/

namespace BlockRules

namespace Wide

variable {n : Nat}

/-- A wide word is written in its display form. -/
def toJson (x : Wide n) : Json := .ofText x.toHex

/-- A wide word is read off whatever its display form may be written as. -/
def ofJson? (j : Json) : Option (Wide n) := do (ofHex? (← j.toText?)).toOption

end Wide

/-- A plain word. -/
def wordJson (w : UInt32) : Json := .ofNat w.toNat

/-- A target is written as its compact form. -/
def Target.toJson (t : Target) : Json := wordJson t.compact

/-- Any word is read as a compact form, in range or not. -/
def Target.ofJson? (j : Json) : Option Target := j.toUInt32?.map Target.mk

/-- A set of flags is written as its bits. -/
def Flags.toJson (f : Flags) : Json := wordJson f.bits

/-- Any word is read as a set of flags, bits without a meaning included. -/
def Flags.ofJson? (j : Json) : Option Flags := j.toUInt32?.map Flags.mk

/-- A hash type is written as its raw word. -/
def HashType.toJson (t : HashType) : Json := wordJson t.raw

/-- Any word is read as a hash type, defined or not. -/
def HashType.ofJson? (j : Json) : Option HashType := j.toUInt32?.map HashType.mk

/-- The identifier of a version. -/
def SigVersion.name : SigVersion → String
  | .legacy => "Original"
  | .witnessV0 => "WitnessV0"

/-- A version is written by its identifier. -/
def SigVersion.toJson (v : SigVersion) : Json := .ofText v.name

/-- The version with an identifier. -/
def SigVersion.ofJson? (j : Json) : Option SigVersion := do
  let name ← j.toName?
  [SigVersion.legacy, SigVersion.witnessV0].find? fun v => v.name == name

/-- A verdict is written by its identifier. -/
def ScriptError.toJson (e : ScriptError) : Json := .ofText e.name

/-- The verdict with an identifier. -/
def ScriptError.ofJson? (j : Json) : Option ScriptError := do ScriptError.ofName? (← j.toName?)

namespace OutPoint

/-- The record of an outpoint. -/
def toJson (o : OutPoint) : Json := .record [("hash", o.hash.toJson), ("index", wordJson o.index)]

/-- An outpoint, read off a record that has both fields. -/
def ofJson? (j : Json) : Option OutPoint := do
  match ← j.toFields? ["hash", "index"] with
  | [hash, index] =>
    return {
      hash := ← Json.required Wide.ofJson? hash
      index := ← Json.required Json.toUInt32? index }
  | _ => none

end OutPoint

namespace TxInput

/-- The record of an input, its witness included. -/
def toJson (i : TxInput) : Json :=
  .record [("prevout", i.prevout.toJson), ("script_sig", .ofBytes i.scriptSig),
    ("sequence", wordJson i.sequence), ("witness", .ofList .ofBytes i.witness)]

/-- An input, read off a record in which the witness may be left out. -/
def ofJson? (j : Json) : Option TxInput := do
  match ← j.toFields? ["prevout", "script_sig", "sequence", "witness"] with
  | [prevout, scriptSig, sequence, witness] =>
    return {
      prevout := ← Json.required OutPoint.ofJson? prevout
      scriptSig := ← Json.required Json.toBytes? scriptSig
      sequence := ← Json.required Json.toUInt32? sequence
      witness := ← Json.withDefault [] (Json.toList? Json.toBytes?) witness }
  | _ => none

end TxInput

namespace TxOutput

/-- The record of an output. -/
def toJson (o : TxOutput) : Json :=
  .record [("value", .integer o.value.toInt), ("script_pubkey", .ofBytes o.scriptPubkey)]

/-- An output, read off a record that has both fields. -/
def ofJson? (j : Json) : Option TxOutput := do
  match ← j.toFields? ["value", "script_pubkey"] with
  | [value, scriptPubkey] =>
    return {
      value := ← Json.required Json.toInt64? value
      scriptPubkey := ← Json.required Json.toBytes? scriptPubkey }
  | _ => none

end TxOutput

namespace Transaction

/-- The record of a transaction. The mark of a cold stake is not written. -/
def toJson (tx : Transaction) : Json :=
  .record [("version", .integer tx.version.toInt), ("time", .ofOption wordJson tx.time),
    ("inputs", .ofList TxInput.toJson tx.inputs), ("outputs", .ofList TxOutput.toJson tx.outputs),
    ("lock_time", wordJson tx.lockTime)]

/-- A transaction, read off a record in which the time may be left out. It has no mark. -/
def ofJson? (j : Json) : Option Transaction := do
  match ← j.toFields? ["version", "time", "inputs", "outputs", "lock_time"] with
  | [version, time, inputs, outputs, lockTime] =>
    return {
      version := ← Json.required Json.toInt32? version
      time := ← Json.withDefault none (Json.toOption? Json.toUInt32?) time
      inputs := ← Json.required (Json.toList? TxInput.ofJson?) inputs
      outputs := ← Json.required (Json.toList? TxOutput.ofJson?) outputs
      lockTime := ← Json.required Json.toUInt32? lockTime }
  | _ => none

end Transaction

namespace BlockHeader

/-- The record of a header of 80 bytes. -/
def toJson (h : BlockHeader) : Json :=
  .record [("version", .integer h.version.toInt), ("hash_prev_block", h.previous.toJson),
    ("hash_merkle_root", h.merkleRoot.toJson), ("time", wordJson h.time), ("bits", h.bits.toJson),
    ("nonce", wordJson h.nonce)]

/-- A header of 80 bytes, read off a record that has all fields. -/
def ofJson? (j : Json) : Option BlockHeader := do
  match ← j.toFields? ["version", "hash_prev_block", "hash_merkle_root", "time", "bits",
    "nonce"] with
  | [version, previous, merkleRoot, time, bits, nonce] =>
    return {
      version := ← Json.required Json.toInt32? version
      previous := ← Json.required Wide.ofJson? previous
      merkleRoot := ← Json.required Wide.ofJson? merkleRoot
      time := ← Json.required Json.toUInt32? time
      bits := ← Json.required Target.ofJson? bits
      nonce := ← Json.required Json.toUInt32? nonce }
  | _ => none

end BlockHeader

namespace Params

/-- The record of parameters. -/
def toJson (p : Params) : Json :=
  .record [("pow_limit", p.powLimit.toJson), ("pow_target_timespan", .ofNat p.targetTimespan.toNat),
    ("pow_target_spacing", .ofNat p.targetSpacing.toNat),
    ("pow_allow_min_difficulty_blocks", .bool p.allowMinDifficulty),
    ("pow_no_retargeting", .bool p.noRetargeting),
    ("genesis_hash", .ofOption Wide.toJson p.genesisHash)]

/-- Parameters, read off a record in which the two rules and the genesis hash may be left out.
Whether they make sense is not asked here. -/
def ofJson? (j : Json) : Option Params := do
  match ← j.toFields? ["pow_limit", "pow_target_timespan", "pow_target_spacing",
      "pow_allow_min_difficulty_blocks", "pow_no_retargeting", "genesis_hash"] with
  | [powLimit, timespan, spacing, minDifficulty, noRetargeting, genesisHash] =>
    return {
      powLimit := ← Json.required Target.ofJson? powLimit
      targetTimespan := ← Json.required Json.toUInt64? timespan
      targetSpacing := ← Json.required Json.toUInt64? spacing
      allowMinDifficulty := ← Json.withDefault false Json.toBool? minDifficulty
      noRetargeting := ← Json.withDefault false Json.toBool? noRetargeting
      genesisHash := ← Json.withDefault none (Json.toOption? Wide.ofJson?) genesisHash }
  | _ => none

/-- Why a text gives no parameters. -/
inductive ReadError where
  | notJson
  | rejected (cause : ParamsError)
  deriving DecidableEq, Repr

/-- The parameters that a text stands for, if they make sense. -/
def ofText (text : String) : Except ReadError Params :=
  match (Json.parse? text).bind ofJson? with
  | none => .error .notJson
  | some params =>
    match params.validate with
    | .ok () => .ok params
    | .error cause => .error (.rejected cause)

end Params

end BlockRules
