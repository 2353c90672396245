import Mathlib
import BlockRules.Proofs.Script.Slices
import BlockRules.Script.Checker

/-!
# Signature hashes by index

A signature hash is put together from inputs and outputs of a transaction. Here they are
looked up by index, in the order in which they are hashed, and a look-up beyond the end is a
fault.

* `SigHash.legacyAt` — the hash of the legacy summary. The index of the signed input is used
  without a further check behind the guard `SigHash.hasLegacyPreimage`;
* `SigHash.witnessOutputsAt` and `signatureHashAt` — the same for both summaries;
* `TransactionChecker.byIndex` — a checker that breaks down at a fault.

`TransactionChecker.byIndex_eq` says that it is the checker of the transaction: whatever the
transaction and the index are, there is no fault.
-/

namespace BlockRules

/-- The item at an index. -/
def itemAt {α : Type} (xs : List α) (i : Nat) : Except Fault α :=
  match xs[i]? with
  | some x => .ok x
  | none => .error .indexOutOfRange

theorem itemAt_of_lt {α : Type} {xs : List α} {i : Nat} (inside : i < xs.length) :
    itemAt xs i = .ok xs[i] := by
  rw [itemAt, List.getElem?_eq_getElem inside]

namespace SigHash

/-! ## The legacy summary -/

/-- One input as the legacy summary shows it. -/
def inputAt (code : Bytes) (tx : Transaction) (index : Nat) (t : HashType) (i : Nat) :
    Except Fault Bytes := do
  let input ← itemAt tx.inputs i
  return input.prevout.encode ++ Wire.varBytes (if i = index then code else [])
    ++ Wire.uint32 (if i ≠ index ∧ (t.isNone || t.isSingle) then 0 else input.sequence)

/-- So many inputs from an index on. -/
def inputsFrom (code : Bytes) (tx : Transaction) (index : Nat) (t : HashType) :
    Nat → Nat → Except Fault Bytes
  | _, 0 => .ok []
  | i, count + 1 => do
    let first ← inputAt code tx index t i
    return first ++ (← inputsFrom code tx index t (i + 1) count)

/-- The outputs with their number. The one that is signed alone follows as many blank ones as
its index says. -/
def outputsAt (tx : Transaction) (index : Nat) (t : HashType) : Except Fault Bytes := do
  if t.isNone then return Wire.compactSize 0
  else if t.isSingle then
    let own ← itemAt tx.outputs index
    return Wire.compactSize (index + 1)
      ++ (List.replicate index blankOutput).flatMap TxOutput.encode ++ own.encode
  else return Wire.list TxOutput.encode tx.outputs

/-- The inputs that are shown with their number: the signed one, or all. -/
def shownInputsAt (code : Bytes) (tx : Transaction) (index : Nat) (t : HashType) :
    Except Fault Bytes :=
  if t.anyoneCanPay then (inputsFrom code tx index t index 1).map (Wire.compactSize 1 ++ ·)
  else
    (inputsFrom code tx index t 0 tx.inputs.length).map (Wire.compactSize tx.inputs.length ++ ·)

/-- The legacy summary by index. -/
def legacyPreimageAt (code : Bytes) (tx : Transaction) (index : Nat) (t : HashType) :
    Except Fault Bytes := do
  let code ← Script.keepFrom code 0
  let inputs ← shownInputsAt code tx index t
  let outputs ← outputsAt tx index t
  return tx.encodeHead ++ inputs ++ outputs ++ Wire.uint32 tx.lockTime ++ Wire.uint32 t.raw

/-- The hash of the legacy summary by index. -/
def legacyAt (code : Bytes) (tx : Transaction) (index : Nat) (t : HashType) :
    Except Fault UInt256 :=
  if hasLegacyPreimage tx index t then (legacyPreimageAt code tx index t).map doubleSha256
  else .ok Wide.one

variable {code : Bytes} {tx : Transaction} {index : Nat} {t : HashType}

/-- A blanked input is encoded in the way in which it is written down. -/
theorem inputAt_eq {i : Nat} {input : TxInput}
    (found : (blankedInputs code tx index t)[i]? = some input) :
    inputAt code tx index t i = .ok input.encode := by
  rw [blankedInputs, List.getElem?_mapIdx, Option.map_eq_some_iff] at found
  obtain ⟨whole, there, rfl⟩ := found
  simp only [inputAt, itemAt, there]
  by_cases signed : i = index
  · simp only [signed, if_true, ne_eq, not_true_eq_false, false_and, if_false]
    rfl
  · simp only [signed, if_false, ne_eq, not_false_eq_true, true_and]
    rfl

/-- The inputs from an index on are those that the summary shows. -/
theorem inputsFrom_eq {i count : Nat}
    (inside : i + count ≤ (blankedInputs code tx index t).length) :
    inputsFrom code tx index t i count =
      .ok ((((blankedInputs code tx index t).drop i).take count).flatMap TxInput.encode) := by
  induction count generalizing i with
  | zero => rfl
  | succ count ih =>
    have here : i < (blankedInputs code tx index t).length := by omega
    have first := inputAt_eq (List.getElem?_eq_getElem here)
    have rest := @ih (i + 1) (by omega)
    simp only [inputsFrom, first, rest]
    rw [List.drop_eq_getElem_cons here, List.take_succ_cons, List.flatMap_cons]
    rfl

/-- The inputs that are shown are found without leaving the list. -/
theorem shownInputsAt_eq (inside : index < tx.inputs.length) :
    shownInputsAt code tx index t =
      .ok (Wire.list TxInput.encode
        (if t.anyoneCanPay then ((blankedInputs code tx index t).drop index).take 1
          else blankedInputs code tx index t)) := by
  have size : (blankedInputs code tx index t).length = tx.inputs.length := by
    rw [blankedInputs, List.length_mapIdx]
  rw [shownInputsAt, Wire.list]
  split
  next =>
    have one : (((blankedInputs code tx index t).drop index).take 1).length = 1 := by
      rw [List.length_take, List.length_drop]
      omega
    rw [inputsFrom_eq (by omega), one]
    rfl
  next =>
    rw [inputsFrom_eq (by omega), List.drop_zero, List.take_of_length_le (Nat.le_of_eq size), size]
    rfl

/-- Behind the guard, the output that is signed alone is there. -/
theorem outputsAt_eq (inside : t.isSingle = true → index < tx.outputs.length) :
    outputsAt tx index t = .ok (Wire.list TxOutput.encode (blankedOutputs tx index t)) := by
  rw [outputsAt, blankedOutputs]
  split
  next => rfl
  next =>
  split
  next single =>
    have there := inside single
    have own : (tx.outputs.drop index).take 1 = [tx.outputs[index]] := by
      rw [List.drop_eq_getElem_cons there, List.take_succ_cons, List.take_zero]
    rw [itemAt_of_lt there, own]
    simp only [Wire.list, List.length_append, List.length_replicate, List.length_singleton,
      List.flatMap_append, List.flatMap_singleton, ← List.append_assoc]
    rfl
  next => rfl

/-- Behind the guard, every input and output that the summary shows is there. -/
theorem legacyPreimageAt_eq (guarded : hasLegacyPreimage tx index t = true) :
    legacyPreimageAt code tx index t = .ok (legacyPreimage code tx index t) := by
  rw [hasLegacyPreimage, Bool.and_eq_true, decide_eq_true_eq, Bool.not_eq_true',
    Bool.and_eq_false_iff, decide_eq_false_iff_not, Nat.not_le] at guarded
  -- the input is there, and the output as well if it is signed alone
  obtain ⟨input, output⟩ := guarded
  have outputs :=
    @outputsAt_eq tx index t fun single => output.resolve_left (by rw [single]; decide)
  rw [legacyPreimageAt, Script.keepFrom_zero_eq, outputs]
  simp only [bind, Except.bind, shownInputsAt_eq input]
  rfl

/-- The legacy digest accesses nothing that is not there, at any index. -/
theorem legacyAt_eq : legacyAt code tx index t = .ok (legacy code tx index t) := by
  rw [legacyAt, legacy]
  split
  next guarded =>
    rw [legacyPreimageAt_eq guarded]
    rfl
  next => rfl

/-! ## Both summaries -/

/-- The hash of the signed outputs by index. -/
def witnessOutputsAt (shared : SharedHashes) (tx : Transaction) (index : Nat) (t : HashType) :
    Except Fault UInt256 :=
  if !t.isSingle && !t.isNone then .ok shared.outputs
  else if t.isSingle && index < tx.outputs.length then
    (itemAt tx.outputs index).map fun own => doubleSha256 own.encode
  else .ok Wide.zero

/-- No hash type asks for no output and for a single one. -/
theorem isNone_eq_false_of_isSingle (single : t.isSingle = true) : t.isNone = false := by
  rw [HashType.isSingle, beq_iff_eq] at single
  rw [HashType.isNone, single]
  rfl

theorem witnessOutputsAt_eq {shared : SharedHashes} :
    witnessOutputsAt shared tx index t = .ok (witnessOutputs shared tx index t) := by
  rw [witnessOutputsAt, witnessOutputs]
  cases single : t.isSingle with
  | true =>
    rw [isNone_eq_false_of_isSingle single]
    by_cases there : index < tx.outputs.length
    · simp [there, itemAt_of_lt there, Except.map]
    · simp [there]
  | false => cases t.isNone <;> rfl

/-- The summary for witnesses by index. -/
def witnessPreimageAt (shared : SharedHashes) (code : Bytes) (tx : Transaction) (index : Nat)
    (input : TxInput) (t : HashType) (amount : Int64) : Except Fault Bytes := do
  let outputs ← witnessOutputsAt shared tx index t
  return Wire.int32 tx.version
    ++ Wire.uint256 (if t.anyoneCanPay then Wide.zero else shared.prevouts)
    ++ Wire.uint256
      (if t.anyoneCanPay || t.isSingle || t.isNone then Wide.zero else shared.sequences)
    ++ input.prevout.encode ++ Wire.varBytes code ++ Wire.int64 amount ++ Wire.uint32 input.sequence
    ++ Wire.uint256 outputs ++ Wire.uint32 tx.lockTime ++ Wire.uint32 t.raw

/-- The witness preimage accesses nothing that is not there. -/
theorem witnessPreimageAt_eq {shared : SharedHashes} {input : TxInput} {amount : Int64} :
    witnessPreimageAt shared code tx index input t amount =
      .ok (witnessPreimage shared code tx index input t amount) := by
  rw [witnessPreimageAt, witnessOutputsAt_eq, witnessPreimage]
  cases t.anyoneCanPay || t.isSingle || t.isNone <;> rfl

end SigHash

/-- The hash that a signature signs, by index. -/
def signatureHashAt (code : Bytes) (tx : Transaction) (index : Nat) (t : HashType) (amount : Int64)
    (version : SigVersion) (shared : Option SharedHashes) :
    Except Fault (Except NoSuchInput UInt256) :=
  match version with
  | .legacy => (SigHash.legacyAt code tx index t).map .ok
  | .witnessV0 =>
    match tx.inputs[index]? with
    | none => .ok (.error ⟨index, tx.inputs.length⟩)
    | some input =>
      let shared := shared.getD (SharedHashes.ofTransaction tx)
      (SigHash.witnessPreimageAt shared code tx index input t amount).map (.ok ∘ doubleSha256)

/-- **No input or output is missing**, whatever the transaction, the index and the hash type
are. -/
theorem signatureHashAt_eq {code : Bytes} {tx : Transaction} {index : Nat} {t : HashType}
    {amount : Int64} {version : SigVersion} {shared : Option SharedHashes} :
    signatureHashAt code tx index t amount version shared =
      .ok (signatureHash code tx index t amount version shared) := by
  cases version with
  | legacy =>
    rw [signatureHashAt, SigHash.legacyAt_eq]
    rfl
  | witnessV0 =>
    simp only [signatureHashAt, signatureHash, SigHash.witnessPreimageAt_eq]
    rcases tx.inputs[index]? with _ | input <;> rfl

namespace TransactionChecker

/-! ## The checker of a transaction -/

variable {c : TransactionChecker}

/-- Whether a signature is good, with its hash by index. -/
def checkSignatureAt (c : TransactionChecker) (sig pubkey code : Bytes) (version : SigVersion) :
    Except Fault Bool :=
  match Curve.publicKey? pubkey, sig.getLast? with
  | some key, some hashType =>
    match Curve.Signature.ofLaxDer? sig.dropLast with
    | none => .ok false
    | some signature =>
      match signatureHashAt code c.transaction c.index
        ⟨hashType.toUInt32⟩ c.amount version c.shared with
      | .error fault => .error fault
      | .ok (.error _) => .ok false
      | .ok (.ok digest) =>
        .ok (signature.normalized.verifies key (Bytes.toNat digest.bytesLE.reverse))
  | _, _ => .ok false

/-- The answers by index. -/
def respondAt (c : TransactionChecker) : Query → Except Fault Bool
  | .signature sig pubkey code version => c.checkSignatureAt sig pubkey code version
  | .lockTime n => .ok (c.checkLockTime n)
  | .sequence n => .ok (c.checkSequence n)

/-- The checker of the transaction that breaks down at a fault. -/
def byIndex (c : TransactionChecker) : Checker where
  respond _ q :=
    match c.respondAt q with
    | .ok answer => .ofBool answer
    | .error fault => .crash fault.message
  transaction := c.transaction

/-- The signature check of the transaction checker accesses nothing that is not there. -/
theorem checkSignatureAt_eq {sig pubkey code : Bytes} {version : SigVersion} :
    c.checkSignatureAt sig pubkey code version = .ok
      (c.checkSignature sig pubkey code version) := by
  simp only [checkSignatureAt, checkSignature, signatureHashAt_eq]
  rcases Curve.publicKey? pubkey with _ | key
  · rfl
  rcases sig.getLast? with _ | hashType
  · rfl
  dsimp only
  rcases Curve.Signature.ofLaxDer? sig.dropLast with _ | signature
  · rfl
  dsimp only
  rcases signatureHash code c.transaction c.index
    ⟨hashType.toUInt32⟩ c.amount version c.shared with
    missing | digest
  · rfl
  · rfl

/-- **The checker of a transaction meets no fault**, at any index and for any question. -/
theorem byIndex_eq (c : TransactionChecker) : c.byIndex = c.toChecker := by
  have answers : ∀ q, c.respondAt q = .ok (c.respond q) := by
    intro q
    cases q with
    | signature sig pubkey code version => exact checkSignatureAt_eq
    | lockTime n => rfl
    | sequence n => rfl
  simp only [byIndex, toChecker, answers]

end TransactionChecker

end BlockRules
