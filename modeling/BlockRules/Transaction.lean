import BlockRules.Digest
import BlockRules.Wire.Encode

/-!
# Transactions

A transaction spends outputs of earlier transactions and creates new ones.

* On a proof-of-stake network it carries a `time`, written right after the version;
  on a proof-of-work network it has none.
* An input may carry a witness. The full encoding then has a mark and a flag byte
  where the input count would stand, and the witnesses behind the outputs; the
  stripped encoding leaves all of that out.
* The first encoding names the transaction with its witnesses (`Transaction.wtxid`),
  the second without them (`Transaction.txid`).
* `coldStake` is a mark that evaluating a script may set. It is no part of any
  encoding.
-/

namespace BlockRules

/-- One output of one transaction. -/
structure OutPoint where
  hash : UInt256
  index : UInt32
  deriving DecidableEq, Repr, Inhabited

/-- Spends an output: names it and gives what its script asks for. -/
structure TxInput where
  prevout : OutPoint
  scriptSig : Bytes
  sequence : UInt32
  witness : List Bytes := []
  deriving DecidableEq, Repr, Inhabited

/-- Creates an output: an amount and the script that guards it. -/
structure TxOutput where
  value : Int64
  scriptPubkey : Bytes
  deriving DecidableEq, Inhabited

/-- Spends some outputs and creates others. A time is there on a proof-of-stake network only. -/
structure Transaction where
  version : Int32
  time : Option UInt32 := none
  inputs : List TxInput
  outputs : List TxOutput
  lockTime : UInt32
  coldStake : Bool := false
  deriving DecidableEq, Inhabited

/-- The outpoint named by an input that spends nothing. -/
def OutPoint.null : OutPoint := ⟨Wide.zero, 0xffffffff⟩

/-- The outpoint names no output. -/
def OutPoint.isNull (o : OutPoint) : Bool := o.hash.isZero && o.index == 0xffffffff

/-- The encoding of an outpoint. -/
def OutPoint.encode (o : OutPoint) : Bytes := Wire.uint256 o.hash ++ Wire.uint32 o.index

/-- An output without amount and script, the mark of a coinstake. -/
def TxOutput.isEmpty (o : TxOutput) : Bool := o.value == 0 && o.scriptPubkey.isEmpty

/-- The encoding of an output. -/
def TxOutput.encode (o : TxOutput) : Bytes := Wire.int64 o.value ++ Wire.varBytes o.scriptPubkey

/-- The encoding of an input, its witness left out. -/
def TxInput.encode (i : TxInput) : Bytes :=
  i.prevout.encode ++ Wire.varBytes i.scriptSig ++ Wire.uint32 i.sequence

/-- The witness of an input: its items behind their count. -/
def TxInput.encodeWitness (i : TxInput) : Bytes := Wire.list Wire.varBytes i.witness

namespace Transaction

/-- Some input has a witness. -/
def hasWitness (tx : Transaction) : Bool := tx.inputs.any fun i => !i.witness.isEmpty

/-- Spends nothing: its only input names the null outpoint. -/
def isCoinbase (tx : Transaction) : Bool :=
  match tx.inputs with
  | [i] => i.prevout.isNull
  | _ => false

/-- Spends a real outpoint and has an empty first output with another one behind it. -/
def isCoinstake (tx : Transaction) : Bool :=
  match tx.inputs, tx.outputs with
  | i :: _, first :: _ :: _ => !i.prevout.isNull && first.isEmpty
  | _, _ => false

/-- The version and, where the network has one, the time. -/
def encodeHead (tx : Transaction) : Bytes :=
  Wire.int32 tx.version ++ (match tx.time with | some t => Wire.uint32 t | none => [])

/-- The encoding, with the witnesses or without them. -/
def encodeWith (withWitness : Bool) (tx : Transaction) : Bytes :=
  let shown := withWitness && tx.hasWitness
  tx.encodeHead
    ++ (if shown then [0x00, 0x01] else [])
    ++ Wire.list TxInput.encode tx.inputs
    ++ Wire.list TxOutput.encode tx.outputs
    ++ (if shown then tx.inputs.flatMap TxInput.encodeWitness else [])
    ++ Wire.uint32 tx.lockTime

/-- The full encoding. -/
def encode (tx : Transaction) : Bytes := tx.encodeWith true

/-- The encoding without witnesses. -/
def encodeStripped (tx : Transaction) : Bytes := tx.encodeWith false

/-- The name of the transaction, which no witness changes. -/
def txid (tx : Transaction) : UInt256 := doubleSha256 tx.encodeStripped

/-- The name of the transaction together with its witnesses. -/
def wtxid (tx : Transaction) : UInt256 := doubleSha256 tx.encode

end Transaction

end BlockRules
