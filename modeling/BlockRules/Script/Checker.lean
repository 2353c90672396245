import BlockRules.SigHash
import BlockRules.Curve.PublicKey
import BlockRules.Curve.Signature

/-!
# Checkers

A script can ask three questions about the transaction it is evaluated for: whether a
signature is good, whether a lock time has passed, and whether an input is old enough.
A `Checker` answers them.

* An answer may depend on the questions asked before (`Checker.respond`), and a checker
  may break down instead of answering (`Reply.crash`).
* A checker that is *pure* looks at the question alone (`Checker.IsPure`), and one that
  is *calm* always answers (`Checker.IsCalm`).
* `Journal` keeps what an evaluation leaves behind in the outside world: the questions it
  asked, in order, and the mark it may set on the transaction.
* `TransactionChecker` answers for an input of a real transaction.
-/

namespace BlockRules

/-- A question about the spending transaction. -/
inductive Query where
  /-- `sig`, with its hash type byte, is a signature by `pubkey` over `code` -/
  | signature (sig pubkey code : Bytes) (version : SigVersion)
  | lockTime (n : Int)
  | sequence (n : Int)
  deriving DecidableEq, Repr

/-- An answer, or the message of a breakdown if it has one. -/
inductive Reply where
  | yes
  | no
  | crash (message : Option String)
  deriving DecidableEq, Repr

/-- The answer that is a truth value. -/
def Reply.ofBool (b : Bool) : Reply := if b then .yes else .no

/-- Answers the questions of scripts. -/
structure Checker where
  /-- the answer to a question after the given earlier ones -/
  respond : List Query → Query → Reply
  /-- the spending transaction, if there is one -/
  transaction : Option Transaction := none

namespace Checker

/-- Answers depend on the question alone. -/
def IsPure (c : Checker) : Prop := ∀ before q, c.respond before q = c.respond [] q

/-- Every question is answered. -/
def IsCalm (c : Checker) : Prop := ∀ before q message, c.respond before q ≠ .crash message

/-- Answers every question with no, for want of a transaction. -/
def base : Checker := { respond := fun _ _ => .no }

/-- Accepts the listed pairs of signature and key, and gives fixed answers to the other
questions; with a message, it breaks down at every question. -/
def listed (pairs : List (Bytes × Bytes)) (lock sequence : Bool) (transaction : Option Transaction)
    (breakdown : Option (Option String)) : Checker :=
  { transaction := transaction
    respond := fun _ q =>
      match breakdown, q with
      | some message, _ => .crash message
      | none, .signature sig pubkey _ _ => .ofBool (pairs.contains (sig, pubkey))
      | none, .lockTime _ => .ofBool lock
      | none, .sequence _ => .ofBool sequence }

end Checker

/-- What an evaluation leaves behind outside of the script. -/
structure Journal where
  /-- the questions asked, first one first -/
  calls : List Query := []
  /-- the spending transaction was marked as a cold stake -/
  coldStake : Bool := false
  deriving DecidableEq, Repr

/-- Asks a question and notes it down. -/
def Journal.ask (j : Journal) (c : Checker) (q : Query) : Reply × Journal :=
  (c.respond j.calls q, { j with calls := j.calls ++ [q] })

/-- Lock times below this number are heights, the others points in time. -/
def lockTimeThreshold : Nat := 500000000

/-- The sequence of an input that no lock time holds back. -/
def finalSequence : UInt32 := 0xffffffff

/-- The bit that keeps a sequence from being a relative lock time. -/
def sequenceDisabled : UInt32 := 0x80000000

/-- The bit that says that a relative lock time counts seconds. -/
def sequenceInSeconds : UInt32 := 0x00400000

/-- The bits of a sequence that state the relative lock time. -/
def sequenceMask : UInt32 := sequenceInSeconds ||| 0x0000ffff

/-- Answers for one input of a transaction, which spends an output of a given amount. -/
structure TransactionChecker where
  transaction : Transaction
  index : Nat
  amount : Int64
  shared : Option SharedHashes := none
  deriving DecidableEq

namespace TransactionChecker

/-- The sequence of the input, if there is such an input. -/
def sequence? (c : TransactionChecker) : Option UInt32 :=
  c.transaction.inputs[c.index]?.map TxInput.sequence

/-- Whether a signature, with its hash type byte, is good. Keys and signatures that cannot
be read are not. -/
def checkSignature (c : TransactionChecker) (sig pubkey code : Bytes)
    (version : SigVersion) : Bool :=
  match Curve.publicKey? pubkey, sig.getLast? with
  | some key, some hashType =>
    match Curve.Signature.ofLaxDer? sig.dropLast with
    | none => false
    | some signature =>
      match signatureHash code c.transaction c.index
        ⟨hashType.toUInt32⟩ c.amount version c.shared with
      | .error _ => false
      | .ok digest => signature.normalized.verifies key (Bytes.toNat digest.bytesLE.reverse)
  | _, _ => false

/-- Whether a lock time has passed: it is of the kind of the transaction's own one, not
later, and the input is not final. -/
def checkLockTime (c : TransactionChecker) (n : Int) : Bool :=
  let own := c.transaction.lockTime.toNat
  0 ≤ n && n ≤ 0xffffffff
    && decide (own < lockTimeThreshold) == decide (n.toNat < lockTimeThreshold)
    && n.toNat ≤ own
    && match c.sequence? with
      | some sequence => sequence != finalSequence
      | none => false

/-- Whether an input is old enough: the transaction has relative lock times, the input has
one of the same kind, and it is not shorter. -/
def checkSequence (c : TransactionChecker) (n : Int) : Bool :=
  0 ≤ n && n ≤ 0xffffffff
    && match c.sequence? with
      | none => false
      | some sequence =>
        let own := sequence &&& sequenceMask
        let asked := UInt32.ofNat n.toNat &&& sequenceMask
        2 ≤ c.transaction.version.toUInt32
          && sequence &&& sequenceDisabled == 0
          && decide (own < sequenceInSeconds) == decide (asked < sequenceInSeconds)
          && asked ≤ own

/-- The answer to each kind of question. -/
def respond (c : TransactionChecker) : Query → Bool
  | .signature sig pubkey code version => c.checkSignature sig pubkey code version
  | .lockTime n => c.checkLockTime n
  | .sequence n => c.checkSequence n

/-- The checker of an input, which answers alike whatever was asked before. -/
def toChecker (c : TransactionChecker) : Checker :=
  { respond := fun _ q => .ofBool (c.respond q), transaction := some c.transaction }

/-- The checker of a transaction answers from the transaction alone. -/
theorem toChecker_isPure (c : TransactionChecker) : c.toChecker.IsPure := fun _ _ => rfl

/-- The checker of a transaction does not break down. -/
theorem toChecker_isCalm (c : TransactionChecker) : c.toChecker.IsCalm := by
  intro before q message
  show Reply.ofBool (c.respond q) ≠ _
  cases c.respond q <;> simp [Reply.ofBool]

end TransactionChecker

end BlockRules
