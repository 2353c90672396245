/-!
# Verdicts of script verification

Why a script fails. `ScriptError.ok` is the verdict of a script that does not.
-/

namespace BlockRules

/-- The verdicts. -/
inductive ScriptError where
  | ok
  | unknownError
  | evalFalse
  | opReturn
  | scriptSize
  | pushSize
  | opCount
  | stackSize
  | sigCount
  | pubkeyCount
  | verify
  | equalVerify
  | checkMultiSigVerify
  | checkSigVerify
  | numEqualVerify
  | badOpCode
  | disabledOpCode
  | invalidStackOperation
  | invalidAltStackOperation
  | unbalancedConditional
  | negativeLockTime
  | unsatisfiedLockTime
  | sigHashType
  | sigDer
  | minimalData
  | sigPushOnly
  | sigHighS
  | sigNullDummy
  | pubKeyType
  | cleanStack
  | minimalIf
  | nullFail
  | discourageUpgradableNops
  | discourageUpgradableWitnessProgram
  | witnessProgramWrongLength
  | witnessProgramEmpty
  | witnessProgramMismatch
  | witnessMalleated
  | witnessMalleatedP2SH
  | witnessUnexpected
  | witnessPubkeyType
  | checkColdStakeVerify
  deriving DecidableEq, Repr, Inhabited

namespace ScriptError

/-- The identifier of a verdict and the sentence that explains it. -/
def entry : ScriptError → String × String
  | ok => ("Ok", "No error")
  | unknownError => ("UnknownError", "unknown error")
  | evalFalse =>
    ("EvalFalse",
      "Script evaluated without error but finished with a false/empty top stack element")
  | opReturn => ("OpReturn", "OP_RETURN was encountered")
  | scriptSize => ("ScriptSize", "Script is too big")
  | pushSize => ("PushSize", "Push value size limit exceeded")
  | opCount => ("OpCount", "Operation limit exceeded")
  | stackSize => ("StackSize", "Stack size limit exceeded")
  | sigCount => ("SigCount", "Signature count negative or greater than pubkey count")
  | pubkeyCount => ("PubkeyCount", "Pubkey count negative or limit exceeded")
  | verify => ("Verify", "Script failed an OP_VERIFY operation")
  | equalVerify => ("EqualVerify", "Script failed an OP_EQUALVERIFY operation")
  | checkMultiSigVerify =>
    ("CheckMultiSigVerify", "Script failed an OP_CHECKMULTISIGVERIFY operation")
  | checkSigVerify => ("CheckSigVerify", "Script failed an OP_CHECKSIGVERIFY operation")
  | numEqualVerify => ("NumEqualVerify", "Script failed an OP_NUMEQUALVERIFY operation")
  | badOpCode => ("BadOpCode", "Opcode missing or not understood")
  | disabledOpCode => ("DisabledOpCode", "Attempted to use a disabled opcode")
  | invalidStackOperation =>
    ("InvalidStackOperation", "Operation not valid with the current stack size")
  | invalidAltStackOperation =>
    ("InvalidAltStackOperation", "Operation not valid with the current altstack size")
  | unbalancedConditional => ("UnbalancedConditional", "Invalid OP_IF construction")
  | negativeLockTime => ("NegativeLockTime", "Negative locktime")
  | unsatisfiedLockTime => ("UnsatisfiedLockTime", "Locktime requirement not satisfied")
  | sigHashType => ("SigHashType", "Signature hash type missing or not understood")
  | sigDer => ("SigDer", "Non-canonical DER signature")
  | minimalData => ("MinimalData", "Data push larger than necessary")
  | sigPushOnly => ("SigPushOnly", "Only non-push operators allowed in signatures")
  | sigHighS => ("SigHighS", "Non-canonical signature: S value is unnecessarily high")
  | sigNullDummy => ("SigNullDummy", "Dummy CHECKMULTISIG argument must be zero")
  | pubKeyType => ("PubKeyType", "Public key is neither compressed or uncompressed")
  | cleanStack => ("CleanStack", "Extra items left on stack after execution")
  | minimalIf => ("MinimalIf", "OP_IF/NOTIF argument must be minimal")
  | nullFail => ("NullFail", "Signature must be zero for failed CHECK(MULTI)SIG operation")
  | discourageUpgradableNops => ("DiscourageUpgradableNops", "NOPx reserved for soft-fork upgrades")
  | discourageUpgradableWitnessProgram =>
    ("DiscourageUpgradableWitnessProgram", "Witness version reserved for soft-fork upgrades")
  | witnessProgramWrongLength =>
    ("WitnessProgramWrongLength", "Witness program has incorrect length")
  | witnessProgramEmpty => ("WitnessProgramEmpty", "Witness program was passed an empty witness")
  | witnessProgramMismatch => ("WitnessProgramMismatch", "Witness program hash mismatch")
  | witnessMalleated => ("WitnessMalleated", "Witness requires empty scriptSig")
  | witnessMalleatedP2SH => ("WitnessMalleatedP2SH", "Witness requires only-redeemscript scriptSig")
  | witnessUnexpected => ("WitnessUnexpected", "Witness provided for non-witness script")
  | witnessPubkeyType => ("WitnessPubkeyType", "Using non-compressed keys in segwit")
  | checkColdStakeVerify =>
    ("CheckColdStakeVerify", "OP_CHECKCOLDSTAKEVERIFY used outside a coinstake transaction")

/-- The identifier of a verdict. -/
def name (e : ScriptError) : String := e.entry.1

/-- The sentence that explains a verdict. -/
def message (e : ScriptError) : String := e.entry.2

/-- Every verdict. -/
def all : List ScriptError :=
  [ok, unknownError, evalFalse, opReturn, scriptSize, pushSize, opCount, stackSize, sigCount,
   pubkeyCount, verify, equalVerify, checkMultiSigVerify, checkSigVerify, numEqualVerify, badOpCode,
   disabledOpCode, invalidStackOperation, invalidAltStackOperation, unbalancedConditional,
   negativeLockTime, unsatisfiedLockTime, sigHashType, sigDer, minimalData, sigPushOnly, sigHighS,
   sigNullDummy, pubKeyType, cleanStack, minimalIf, nullFail, discourageUpgradableNops,
   discourageUpgradableWitnessProgram, witnessProgramWrongLength, witnessProgramEmpty,
   witnessProgramMismatch, witnessMalleated, witnessMalleatedP2SH, witnessUnexpected,
   witnessPubkeyType, checkColdStakeVerify]

theorem mem_all (e : ScriptError) : e ∈ all := by cases e <;> decide

/-- The verdict with the given identifier. -/
def ofName? (s : String) : Option ScriptError := all.find? fun e => e.name == s

end ScriptError

end BlockRules
