import BlockRules.Script.Context

/-!
# Spending an output

The check of one input of a transaction against the output it spends. It is the
verification of the input's script and witness with a checker for that input, the hashes
of the whole transaction computed beforehand. The answer says that the input is good, or
why it is not, and gives the transaction with the mark that the scripts may have set.
-/

namespace BlockRules

/-- The scripts of an input fail, or break down with a message. -/
structure ScriptFailure where
  index : Nat
  error : ScriptError
  breakdown : Option String
  deriving DecidableEq, Repr

/-- The wording of a failure. -/
def ScriptFailure.message (e : ScriptFailure) : String :=
  match e.breakdown with
  | none => s!"input {e.index}: {e.error.message}"
  | some breakdown => s!"input {e.index}: {e.error.message} ({breakdown})"

/-- Why an input does not spend its output. -/
inductive SpendError where
  | noSuchInput (cause : NoSuchInput)
  | script (cause : ScriptFailure)
  deriving DecidableEq, Repr

/-- The verdict of a context on an input. -/
def Context.verdict (ctx : Context) (index : Nat) : Except SpendError Unit :=
  if ctx.accepts then .ok () else .error (.script ⟨index, ctx.error, ctx.unexpected⟩)

/-- Checks that an input of a transaction spends an output with the given script and amount. -/
def Transaction.verifyInput (tx : Transaction) (index : Nat) (scriptPubkey : Bytes) (amount : Int64)
    (flags : Flags) : Except SpendError Unit × Transaction :=
  match tx.inputs[index]? with
  | none => (.error (.noSuchInput ⟨index, tx.inputs.length⟩), tx)
  | some input =>
    let checker : TransactionChecker :=
      { transaction := tx, index, amount, shared := some (SharedHashes.ofTransaction tx) }
    let start : Context := { flags }
    let (ctx, journal) :=
      start.verifyScript checker.toChecker input.scriptSig scriptPubkey input.witness
    (ctx.verdict index, (checker.afterwards journal).transaction)

end BlockRules
