import Mathlib
import BlockRules.Spend
import BlockRules.Proofs.Script.Checkers
import BlockRules.Proofs.SigHash.Independence

/-!
# Inputs are verified independently

Whether an input spends its output is a matter between the two. It does not depend on what the
other inputs show for theirs, so that they can be filled in, and checked, in any order.

Three things reach the scripts of an input from the rest of its transaction:

* **signatures** — the hashes that are signed, with those of the whole transaction computed
  beforehand, contain outpoints, sequences and outputs, but no scripts and witnesses
  (`AlikeFor.signatureHash_eq`);
* **times** — lock times are compared with the transaction's and with the sequence of the input
  itself;
* **coinstakes** — a coinstake is told by its first outpoint and its outputs
  (`AlikeFor.isCoinstake_eq`). The mark that is set then is never looked at.

So `Transaction.AlikeFor` is enough to have the same verdict. What a verification does to the
transaction leaves it alike for every input (`Spend.verify_alikeFor`), which makes runs that
share a transaction independent (`Transaction.verifyInTurn`).
-/

namespace BlockRules

/-- Two transactions are alike for one input if they differ in nothing but the scripts and witnesses
of the other inputs, and in the mark. -/
structure Transaction.AlikeFor (index : Nat) (tx tx' : Transaction) : Prop where
  version : tx.version = tx'.version
  time : tx.time = tx'.time
  lockTime : tx.lockTime = tx'.lockTime
  outputs : tx.outputs = tx'.outputs
  prevouts : tx.inputs.map TxInput.prevout = tx'.inputs.map TxInput.prevout
  sequences : tx.inputs.map TxInput.sequence = tx'.inputs.map TxInput.sequence
  own : tx.inputs[index]? = tx'.inputs[index]?

/-- The hash of what is signed does not change if the hashes of the whole transaction are computed
beforehand. -/
theorem signatureHash_shared (code : Bytes) (tx : Transaction) (index : Nat) (t : HashType)
    (amount : Int64) (version : SigVersion) :
    signatureHash code tx index t amount version (some (.ofTransaction tx)) =
      signatureHash code tx index t amount version none := by
  cases version <;> rfl

namespace Transaction

variable {tx tx' : Transaction} {index : Nat} {input : TxInput}

/-- The mark has no part in it. -/
theorem alikeFor_mark (tx : Transaction) (coldStake : Bool) :
    tx.AlikeFor index { tx with coldStake } :=
  ⟨rfl, rfl, rfl, rfl, rfl, rfl, rfl⟩

/-- A coinstake spends a real output first, and its first output of several is empty. -/
theorem isCoinstake_eq (tx : Transaction) :
    tx.isCoinstake =
      ((tx.inputs.map TxInput.prevout).head?.any (!·.isNull) &&
        (decide (2 ≤ tx.outputs.length) &&
        tx.outputs.head?.any TxOutput.isEmpty)) := by
  rcases tx with ⟨_, _, _ | ⟨i, is⟩, _ | ⟨o, _ | ⟨o', os⟩⟩, _, _⟩ <;>
    simp [isCoinstake]

namespace AlikeFor

theorem length_eq (alike : tx.AlikeFor index tx') : tx.inputs.length = tx'.inputs.length := by
  have same := congrArg List.length alike.prevouts
  rwa [List.length_map, List.length_map] at same

theorem isCoinstake_eq (alike : tx.AlikeFor index tx') : tx.isCoinstake = tx'.isCoinstake := by
  rw [Transaction.isCoinstake_eq, Transaction.isCoinstake_eq, alike.prevouts, alike.outputs]

/-- Nothing is signed that differs. -/
theorem signAlike (alike : tx.AlikeFor index tx') (there : tx.inputs[index]? = some input)
    (code : Bytes) (t : HashType) (amount : Int64) (version : SigVersion) :
    SigHash.Request.SignAlike version ⟨code, tx, index, t, amount⟩
      ⟨code, tx', index, t, amount⟩ where
  type := rfl
  version := alike.version
  lockTime := alike.lockTime
  time := alike.time
  code := rfl
  index := rfl
  amount _ := rfl
  input := ⟨input, input, there, alike.own ▸ there, rfl, rfl⟩
  prevouts _ := alike.prevouts
  sequences _ _ := alike.sequences
  outputs _ := alike.outputs
  output _ := congrArg (·[index]?) alike.outputs

/-- Transactions that are alike for an input give its signatures the same digest. -/
theorem signatureHash_eq (alike : tx.AlikeFor index tx') (there : tx.inputs[index]? = some input)
    (code : Bytes) (t : HashType) (amount : Int64) (version : SigVersion) :
    signatureHash code tx index t amount version (some (.ofTransaction tx)) =
      signatureHash code tx' index t amount version (some (.ofTransaction tx')) := by
  rw [signatureHash_shared, signatureHash_shared]
  exact (alike.signAlike there code t amount version).hash_eq

end AlikeFor

end Transaction

/-! ## Checkers of inputs -/

namespace TransactionChecker

variable {c c' : TransactionChecker}

theorem checkLockTime_congr (lockTime : c.transaction.lockTime = c'.transaction.lockTime)
    (own : c.sequence? = c'.sequence?) (n : Int) : c.checkLockTime n = c'.checkLockTime n := by
  rw [checkLockTime, checkLockTime, lockTime, own]

theorem checkSequence_congr (version : c.transaction.version = c'.transaction.version)
    (own : c.sequence? = c'.sequence?) (n : Int) : c.checkSequence n = c'.checkSequence n := by
  rw [checkSequence, checkSequence, version, own]

end TransactionChecker

namespace Transaction

variable {tx tx' : Transaction} {index : Nat} {input : TxInput}

/-- The checker for an input, with the hashes of its transaction computed beforehand. -/
def checkerFor (tx : Transaction) (index : Nat) (amount : Int64) : TransactionChecker :=
  { transaction := tx, index, amount, shared := some (.ofTransaction tx) }

/-- The checker of an input answers every query alike for transactions that are alike for it. -/
theorem AlikeFor.respond_eq (alike : tx.AlikeFor index tx') (there : tx.inputs[index]? = some input)
    (amount : Int64) (q : Query) :
    (tx.checkerFor index amount).respond q = (tx'.checkerFor index amount).respond q := by
  have own : (tx.checkerFor index amount).sequence? = (tx'.checkerFor index amount).sequence? :=
    congrArg (Option.map TxInput.sequence) alike.own
  cases q with
  | signature sig pubkey code version =>
    simp only [TransactionChecker.respond, TransactionChecker.checkSignature, checkerFor,
      alike.signatureHash_eq there]
  | lockTime n => exact TransactionChecker.checkLockTime_congr alike.lockTime own n
  | sequence n => exact TransactionChecker.checkSequence_congr alike.version own n

theorem AlikeFor.checker_alike (alike : tx.AlikeFor index tx')
    (there : tx.inputs[index]? = some input) (amount : Int64) :
    (tx.checkerFor index amount).toChecker.Alike (tx'.checkerFor index amount).toChecker where
  respond := by
    funext before q
    exact congrArg Reply.ofBool (alike.respond_eq there amount q)
  coinstake := alike.isCoinstake_eq

end Transaction

/-! ## Verifications that share a transaction -/

/-- An input to be verified, by its index, and the output that it spends. -/
structure Spend where
  index : Nat
  scriptPubkey : Bytes
  amount : Int64
  flags : Flags
  deriving DecidableEq

/-- The verdict on an input, and the transaction with its mark. -/
def Spend.verify (s : Spend) (tx : Transaction) : Except SpendError Unit × Transaction :=
  tx.verifyInput s.index s.scriptPubkey s.amount s.flags

/-- Verifies inputs one after another. Each finds the transaction as the earlier ones have left
it. -/
def Transaction.verifyInTurn (tx : Transaction) :
    List Spend → List (Except SpendError Unit) × Transaction
  | [] => ([], tx)
  | s :: rest =>
    let (verdict, tx) := s.verify tx
    let (verdicts, tx) := tx.verifyInTurn rest
    (verdict :: verdicts, tx)

namespace Spend

variable {s : Spend} {tx tx' : Transaction}

/-- Transactions that are alike for an input get the same verdict on it. -/
theorem verify_congr (alike : tx.AlikeFor s.index tx') : (s.verify tx).1 = (s.verify tx').1 := by
  rcases there : tx.inputs[s.index]? with _ | input
  · -- the error for an input that is missing states how many there are
    have there' := alike.own.symm.trans there
    simp only [verify, Transaction.verifyInput, there, there', alike.length_eq]
  · have there' := alike.own.symm.trans there
    have runs :=
      Context.verifyScript_congr (alike.checker_alike there s.amount) { flags := s.flags }
      input.scriptSig s.scriptPubkey input.witness {}
    simp only [Transaction.checkerFor] at runs
    simp only [verify, Transaction.verifyInput, there, there', runs]

/-- **One verification** does nothing to the transaction but to mark it. -/
theorem verify_marks (s : Spend) (tx : Transaction) :
    (s.verify tx).2 = { tx with coldStake := (s.verify tx).2.coldStake } := by
  rcases there : tx.inputs[s.index]? with _ | input
  · simp only [verify, Transaction.verifyInput, there]
  · simp only [verify, Transaction.verifyInput, there]
    rfl

/-- Verifying one input leaves the transaction alike for every input: only the mark is written. -/
theorem verify_alikeFor (s : Spend) (tx : Transaction) (index : Nat) :
    tx.AlikeFor index (s.verify tx).2 := by
  rw [s.verify_marks tx]
  exact tx.alikeFor_mark _

end Spend

namespace Transaction

/-- **Several verifications**, by induction on their list: each one finds a transaction that is
alike for every input to the one that the first has found. -/
theorem verdicts_verifyInTurn (spends : List Spend) (tx : Transaction) :
    (tx.verifyInTurn spends).1 = spends.map fun s => (s.verify tx).1 := by
  induction spends generalizing tx with
  | nil => rfl
  | cons s rest ih =>
    have later : ∀ s' ∈ rest, (s'.verify (s.verify tx).2).1 = (s'.verify tx).1 := by
      intro s' _
      exact (Spend.verify_congr (s.verify_alikeFor tx s'.index)).symm
    calc (tx.verifyInTurn (s :: rest)).1
      _ = (s.verify tx).1 :: ((s.verify tx).2.verifyInTurn rest).1 := rfl
      _ = (s.verify tx).1 :: rest.map fun s' => (s'.verify (s.verify tx).2).1 := by rw [ih]
      _ = (s :: rest).map fun s' => (s'.verify tx).1 := by
        rw [List.map_congr_left later, List.map_cons]

/-- **Inputs are verified independently.**

* The verdict on an input stays the same if the other inputs change their scripts and witnesses, or
  if the transaction is marked.
* Inputs that are verified one after another on one transaction get the verdicts that they get
  alone, whatever the order, and whatever marks are set on the way. -/
theorem inputs_verify_independently (tx : Transaction) :
    (∀ (s : Spend) (tx' : Transaction),
        tx.AlikeFor s.index tx' → (s.verify tx).1 = (s.verify tx').1) ∧
      ∀ spends : List Spend,
        (tx.verifyInTurn spends).1 = spends.map fun s => (s.verify tx).1 := by
  constructor
  · intro s tx' alike
    exact Spend.verify_congr alike
  · intro spends
    exact verdicts_verifyInTurn spends tx

/-- A coinstake with two inputs. -/
def twoInputs : Transaction where
  version := 1
  inputs := [⟨⟨Wide.one, 0⟩, [], 0, []⟩, ⟨⟨Wide.one, 1⟩, [0x51], 0, []⟩]
  outputs := [⟨0, []⟩, ⟨5000, [0x51]⟩]
  lockTime := 0

/-- The second input shows another script, and the coinstake is marked. -/
def twoInputsOtherwise : Transaction :=
  { twoInputs with
    inputs := [⟨⟨Wide.one, 0⟩, [], 0, []⟩, ⟨⟨Wide.one, 1⟩, [0x52, 0x51], 0, [[7]]⟩]
    coldStake := true }

/-- Spends an output that marks its coinstake. -/
def marking : Spend where
  index := 0
  scriptPubkey := [0xb9, 0x51]
  amount := 3000
  flags := .ofList [.checkColdStakeVerify]

/-- Spends an output that compares with one what is pushed. -/
def comparing : Spend := ⟨1, [0x51, 0x87], 2000, .standard⟩

theorem two_inputs_in_either_order :
    twoInputs.AlikeFor marking.index twoInputsOtherwise ∧
      (marking.verify twoInputsOtherwise).1 = .ok () ∧
      (twoInputs.verifyInTurn [marking, comparing]).1 = [.ok (), .ok ()] ∧
      (twoInputs.verifyInTurn [comparing, marking]).1 = [.ok (), .ok ()] ∧
      (twoInputs.verifyInTurn [marking, comparing]).2.coldStake = true := by
  have alike : twoInputs.AlikeFor marking.index twoInputsOtherwise :=
    ⟨rfl, rfl, rfl, rfl, rfl, rfl, rfl⟩
  have marks : (marking.verify twoInputs).1 = .ok () := by decide +kernel
  have compares : (comparing.verify twoInputs).1 = .ok () := by decide +kernel
  obtain ⟨apart, inTurn⟩ := twoInputs.inputs_verify_independently
  refine ⟨alike, (apart marking _ alike).symm.trans marks, ?_, ?_, by decide +kernel⟩
  · rw [inTurn, List.map_cons, List.map_cons, List.map_nil, marks, compares]
  · rw [inTurn, List.map_cons, List.map_cons, List.map_nil, marks, compares]

end Transaction

end BlockRules
