import BlockRules.Script.Verify

/-!
# Evaluation contexts

A context keeps what a caller wants to know between evaluations: the flags, the main
stack, the verdict of the last evaluation and, if it broke down, the message. It is a
value, so a kept copy is not touched by later evaluations.
-/

namespace BlockRules

/-- The state that is kept between evaluations. -/
structure Context where
  flags : Flags := Flags.standard
  /-- the main stack, top first -/
  stack : Stack Bytes := []
  /-- the verdict of the last evaluation -/
  error : ScriptError := .ok
  /-- the message with which the last evaluation broke down -/
  unexpected : Option String := none
  deriving DecidableEq, Repr

namespace Context

/-- The last evaluation ended well. -/
def accepts (ctx : Context) : Bool := ctx.error == .ok

/-- The context after a run. -/
def record (ctx : Context) (r : Run) : Context :=
  match r.stop with
  | none => { ctx with stack := r.stack, error := .ok, unexpected := none }
  | some (.failed e) => { ctx with stack := r.stack, error := e, unexpected := none }
  | some (.crashed message) =>
    { ctx with stack := r.stack, error := .unknownError, unexpected := some message }

/-- Runs one script on the stack of the context. -/
def evalScript (ctx : Context) (checker : Checker) (version : SigVersion) (script : Bytes)
    (journal : Journal := {}) : Context × Journal :=
  let r := Run.ofOutcome (Script.evaluate ctx.flags checker version script ctx.stack journal)
  (ctx.record r, r.journal)

/-- Verifies an input, starting from an empty stack. -/
def verifyScript (ctx : Context) (checker : Checker) (scriptSig scriptPubkey : Bytes)
    (witness : List Bytes) (journal : Journal := {}) : Context × Journal :=
  let r := Script.verify ⟨ctx.flags, checker⟩ scriptSig scriptPubkey witness journal
  (ctx.record r, r.journal)

end Context

namespace TransactionChecker

/-- The checker after an evaluation, its transaction marked if the evaluation marked it. -/
def afterwards (c : TransactionChecker) (journal : Journal) : TransactionChecker :=
  { c with
    transaction :=
      { c.transaction with coldStake := c.transaction.coldStake || journal.coldStake } }

end TransactionChecker

end BlockRules
