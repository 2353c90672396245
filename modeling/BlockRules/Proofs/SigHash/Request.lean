import Mathlib
import BlockRules.SigHash

/-!
# Requests for a signature hash

A signature is over a hash, so it says something about a transaction only if no other
transaction that could be shown instead has the same hash. `SigHash.Request` holds what such a
hash is computed from. What two requests must have in common if they have the same hash depends
on their hash type, and a little on the version:

* `Request.Agree` — the part that both versions ask for;
* `Request.AgreeLegacy` — the legacy version, which also signs the place of the input and is
  blind to code separators;
* `Request.AgreeWitness` — the version for witnesses, which also signs the amount.
-/

namespace BlockRules

namespace SigHash

/-- What a signature hash is computed from. -/
structure Request where
  code : Bytes
  tx : Transaction
  /-- the index of the signed input -/
  index : Nat
  type : HashType
  /-- the amount of the output that the input spends -/
  amount : Int64
  deriving DecidableEq

namespace Request

/-- The hash that is signed. -/
def hash (r : Request) (version : SigVersion) (shared : Option SharedHashes) :
    Except NoSuchInput UInt256 :=
  signatureHash r.code r.tx r.index r.type r.amount version shared

/-- All outputs are signed, and with them the sequences. -/
def signsAll (r : Request) : Bool := !(r.type.isSingle || r.type.isNone)

theorem signsAll_iff {r : Request} :
    r.signsAll = true ↔ r.type.isSingle = false ∧ r.type.isNone = false := by
  rw [signsAll, Bool.not_eq_true', Bool.or_eq_false_iff]

/-- What two requests have in common if they sign the same, in either version. -/
structure Agree (r r' : Request) : Prop where
  type : r.type = r'.type
  version : r.tx.version = r'.tx.version
  lockTime : r.tx.lockTime = r'.tx.lockTime
  /-- the signed inputs name the same output and have the same sequence -/
  input : ∃ input input', r.tx.inputs[r.index]? = some input ∧
    r'.tx.inputs[r'.index]? = some input' ∧ input.prevout = input'.prevout ∧
    input.sequence = input'.sequence
  prevouts : r.type.anyoneCanPay = false →
    r.tx.inputs.map TxInput.prevout = r'.tx.inputs.map TxInput.prevout
  sequences : r.type.anyoneCanPay = false → r.signsAll = true →
    r.tx.inputs.map TxInput.sequence = r'.tx.inputs.map TxInput.sequence
  outputs : r.signsAll = true → r.tx.outputs = r'.tx.outputs

/-- What two requests have in common if they sign the same in the legacy version. -/
structure AgreeLegacy (r r' : Request) : Prop extends Agree r r' where
  time : r.tx.time = r'.tx.time
  /-- the scripts are the same but for code separators -/
  code : Script.removeCodeSeparators r.code = Script.removeCodeSeparators r'.code
  /-- unless other inputs may be added and all or no outputs are signed, the place of the input
  is signed as well -/
  index : r.type.anyoneCanPay = false ∨ r.type.isSingle = true → r.index = r'.index
  /-- an output that is signed alone is there, and is the same -/
  output : r.type.isSingle = true → ∃ output, r.tx.outputs[r.index]? = some output ∧
    r'.tx.outputs[r'.index]? = some output

/-- What two requests have in common if they sign the same in the version for witnesses. -/
structure AgreeWitness (r r' : Request) : Prop extends Agree r r' where
  amount : r.amount = r'.amount
  code : r.code = r'.code
  /-- an output that is signed alone is the same, or there is none on either side -/
  output : r.type.isSingle = true → r.tx.outputs[r.index]? = r'.tx.outputs[r'.index]?

end Request

end SigHash

end BlockRules
