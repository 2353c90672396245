import BlockRules.Script.Checker
import BlockRules.Script.Error
import BlockRules.Script.Flags
import BlockRules.Script.Number

/-!
# How signatures and keys must be written

Before a signature is checked, flags may ask that it and its key have a certain form.
This module also fixes how an evaluation can end before its end: `Stop` is a verdict that
the rules know (`failed`), or a breakdown that they do not (`crashed`).
-/

namespace BlockRules

/-- Why an evaluation ends early. -/
inductive Stop where
  /-- the script breaks a rule -/
  | failed (error : ScriptError)
  /-- something broke down, with a message -/
  | crashed (message : String)
  deriving DecidableEq, Repr

/-- A fault inside an evaluation is a breakdown. -/
def Stop.ofFault (f : Fault) : Stop := .crashed f.message

/-- An item that is no number fails a script without saying why. -/
def Stop.ofNumber : ScriptNumError → Stop
  | .overflow _ => .failed .unknownError
  | .nonMinimal => .failed .unknownError
  | .fault cause => .ofFault cause

/-- A checker that breaks down ends the evaluation with its message, if it has one. -/
def Stop.ofCrash (message : Option String) : Stop :=
  .crashed (message.getD "non-string panic payload")

namespace Flags

/-- The rules for a signature. An empty one is the short way to fail a check, and always
well formed. -/
def checkSignatureForm (flags : Flags) (sig : Bytes) : Except Stop Unit :=
  match sig.getLast? with
  | none => .ok ()
  | some hashType =>
    let strict := flags.has .derSig || flags.has .lowS || flags.has .strictEnc
    match if strict then Curve.isStrictDer sig else .ok true with
    | .error fault => .error (.ofFault fault)
    | .ok false => .error (.failed .sigDer)
    | .ok true =>
      if flags.has .lowS && !Curve.isLowDer sig then .error (.failed .sigHighS)
      else if flags.has .strictEnc && !(HashType.mk hashType.toUInt32).isDefined then
        .error (.failed .sigHashType)
      else .ok ()

/-- The rules for a public key. -/
def checkKeyForm (flags : Flags) (version : SigVersion) (key : Bytes) : Except Stop Unit :=
  if flags.has .strictEnc && !Curve.isCompressedOrUncompressed key then .error (.failed .pubKeyType)
  else if flags.has .witnessPubkeyType && version == .witnessV0 && !Curve.isCompressed key then
    .error (.failed .witnessPubkeyType)
  else .ok ()

/-- The rules for a signature and then those for a key. -/
def checkForms (flags : Flags) (version : SigVersion) (sig key : Bytes) : Except Stop Unit :=
  match flags.checkSignatureForm sig with
  | .error stop => .error stop
  | .ok () => flags.checkKeyForm version key

/-- A stack item as a number, in the form the flags ask for. -/
def readNumber (flags : Flags) (maxSize : Nat) (item : Bytes) : Except Stop Int :=
  match ScriptNum.decode (flags.has .minimalData) maxSize item with
  | .error e => .error (.ofNumber e)
  | .ok n => .ok n

end Flags

end BlockRules
