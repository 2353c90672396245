import Mathlib
import BlockRules.Error
import BlockRules.Proofs.Script.Breakdowns
import BlockRules.Proofs.Spend.Independence

/-!
# Hashes computed beforehand

Three hashes of a transaction are the same for all of its inputs, and `Transaction.verifyInput`
computes them before it looks at a script. Whether a signature asks for them depends on its hash
type, and a script can bring up signatures of every type. This module says that nothing is decided
by computing them at once:

* **digests** — what a signature signs is the same with these hashes and without them, whatever is
  signed, for every hash type and in both versions (`signatureHash_shared`);
* **checkers** — so a checker that has them and one that computes every hash when it is needed
  (`Transaction.lazyChecker`) answer alike (`Transaction.checkerFor_alike_lazy`);
* **verdicts** — a script learns nothing but answers, so it ends the same way with either
  (`Transaction.verifyInput_eq_lazy`). What is reported to the caller is the verdict of the run
  without them, and never a breakdown (`Transaction.verifyInput_reports_lazy`).
-/

namespace BlockRules

namespace Transaction

variable {tx : Transaction} {index : Nat} {input : TxInput}

/-- The checker for an input that computes every hash when it is needed. -/
def lazyChecker (tx : Transaction) (index : Nat) (amount : Int64) : TransactionChecker :=
  { transaction := tx, index, amount }

/-- Verifies an input with that checker, in a new context. -/
def verifyLazily (tx : Transaction) (index : Nat) (input : TxInput) (scriptPubkey : Bytes)
    (amount : Int64) (flags : Flags) : Context × Journal :=
  ({ flags } : Context).verifyScript
    (tx.lazyChecker index amount).toChecker input.scriptSig scriptPubkey
    input.witness

/-- Both checkers answer every question alike. Only signatures are asked about with hashes. -/
theorem respond_checkerFor (tx : Transaction) (index : Nat) (amount : Int64) (q : Query) :
    (tx.checkerFor index amount).respond q = (tx.lazyChecker index amount).respond q := by
  cases q with
  | signature sig pubkey code version =>
    simp only [TransactionChecker.respond, TransactionChecker.checkSignature, checkerFor,
      lazyChecker, signatureHash_shared]
  | lockTime n => rfl
  | sequence n => rfl

/-- Shared hashes and hashes computed at need give the same answers. -/
theorem checkerFor_alike_lazy (tx : Transaction) (index : Nat) (amount : Int64) :
    (tx.checkerFor index amount).toChecker.Alike (tx.lazyChecker index amount).toChecker where
  respond := by
    funext before q
    exact congrArg Reply.ofBool (respond_checkerFor tx index amount q)
  coinstake := rfl

/-- An input that is there gets the verdict, and leaves the mark, of the verification that computes
every hash when it is needed. -/
theorem verifyInput_eq_lazy (there : tx.inputs[index]? = some input) (scriptPubkey : Bytes)
    (amount : Int64) (flags : Flags) :
    tx.verifyInput index scriptPubkey amount flags =
      ((tx.verifyLazily index input scriptPubkey amount flags).1.verdict index,
        ((tx.lazyChecker index amount).afterwards
          (tx.verifyLazily index input scriptPubkey amount flags).2).transaction) := by
  have runs := Context.verifyScript_congr (checkerFor_alike_lazy tx index amount) { flags }
    input.scriptSig scriptPubkey input.witness {}
  simp only [checkerFor] at runs
  simp only [verifyInput, there, runs]
  rfl

/-- A verification with the checker of a transaction leaves no message. -/
theorem unexpected_verifyLazily (tx : Transaction) (index : Nat) (input : TxInput)
    (scriptPubkey : Bytes) (amount : Int64) (flags : Flags) :
    (tx.verifyLazily index input scriptPubkey amount flags).1.unexpected = none :=
  (Context.verifyScript_of_calm (TransactionChecker.toChecker_isCalm _) _ _ _ _ _).1

/-- **Hashes computed beforehand change nothing.** An input that is there is found to spend its
output exactly if a new context accepts it with the checker that computes every hash when it is
needed. Otherwise the report is a failure of scripts that names the input and the verdict of that
run.

Behind it stands that the hash that is signed is the same with the hashes of the whole transaction
and without them, for any script, hash type and version. -/
theorem verifyInput_reports_lazy (there : tx.inputs[index]? = some input) (scriptPubkey : Bytes)
    (amount : Int64) (flags : Flags) :
    let verdict := (tx.verifyInput index scriptPubkey amount flags).1
    let run := (tx.verifyLazily index input scriptPubkey amount flags).1
    (verdict = .ok () ↔ run.accepts = true) ∧
    (run.accepts = false →
      let failure : SpendError := .script ⟨index, run.error, none⟩
      verdict = .error failure ∧ (Error.ofSpend failure).kind = .scriptExecution ∧
        (Error.ofSpend failure).detail = s!"input {index}: {run.error.message}") ∧
    ∀ (code : Bytes) (t : HashType) (version : SigVersion),
      signatureHash code tx index t amount version (some (.ofTransaction tx)) =
        signatureHash code tx index t amount version none := by
  intro verdict run
  have reported : verdict = run.verdict index :=
    congrArg Prod.fst (verifyInput_eq_lazy there scriptPubkey amount flags)
  have quiet : run.unexpected = none :=
    unexpected_verifyLazily tx index input scriptPubkey amount flags
  rw [reported, Context.verdict, quiet]
  refine ⟨?_, ?_, fun code t version => signatureHash_shared code tx index t amount version⟩
  · cases run.accepts <;> simp
  · intro refused
    rw [refused, if_neg Bool.false_ne_true]
    exact ⟨rfl, rfl, rfl⟩

/-- The generator of the curve as a public key. -/
def generatorKey : Bytes := 0x02 :: (Bytes.ofNat 32 Curve.Point.generator.x).reverse

/-- A signature by that key which covers all inputs and no output. -/
def signatureOfInputs : Bytes :=
  [0x30, 0x44, 0x02, 0x20] ++ (Bytes.ofNat 32 Curve.Point.generator.x).reverse
    ++ [0x02, 0x20]
    ++ (Bytes.ofNat 32 0x16980e1052d4d4086fb8b730670d4afe694ae99abd6128fb4d09bc08b4583f59).reverse
    ++ [0x02]

/-- Spends an output by key. -/
def signedInput : TxInput where
  prevout := ⟨Wide.one, 0⟩
  scriptSig := []
  sequence := 0
  witness := [signatureOfInputs, generatorKey]

/-- The transaction that spends it. -/
def signedTransaction : Transaction where
  version := 2
  inputs := [signedInput]
  outputs := [⟨5000, [0x51]⟩]
  lockTime := 0

/-- The witness program for the hash of the key. -/
def generatorProgram : Bytes :=
  Script.payToWitnessKeyHash
    (Wide.ofBytesLE (Bytes.ofNat 20 0x751e76e8199196d454941c45d1b3a323f1433bd6).reverse)

/-- The signature is good with the hash of all outpoints computed beforehand, so it is good
without. -/
theorem signed_input_verifies_lazily :
    signedTransaction.inputs[0]? = some signedInput ∧
      (signedTransaction.verifyInput 0 generatorProgram 6000 .standard).1 = .ok () ∧
      (signedTransaction.verifyLazily 0 signedInput generatorProgram 6000 .standard).1.accepts =
        true := by
  have there : signedTransaction.inputs[0]? = some signedInput := rfl
  have spends : (signedTransaction.verifyInput 0 generatorProgram 6000 .standard).1 = .ok () := by
    decide +kernel
  exact ⟨there, spends,
    (verifyInput_reports_lazy there generatorProgram 6000 .standard).1.1 spends⟩

end Transaction

end BlockRules
