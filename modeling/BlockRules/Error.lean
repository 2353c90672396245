import BlockRules.Chain.Retarget
import BlockRules.Spend

/-!
# Errors

Everything that this library reports to its caller, in one type. Each constructor holds
the cause that the part at fault gives, and the causes fall into seven classes
(`Error.kind`); the wording of an error is the phrase of its class and the wording of its
cause (`Error.message`). Faults are not among them: an operation that ends with a `Fault`
has nothing to report.
-/

namespace BlockRules

/-- What is reported to a caller: the cause as the part at fault states it. -/
inductive Error where
  | format (cause : FormatError)
  | link (cause : LinkError)
  | noSuchInput (cause : NoSuchInput)
  | partialChain (cause : PartialChain)
  | target (cause : TargetError)
  | script (cause : ScriptFailure)
  | decode (cause : DecodeError)
  | params (cause : ParamsError)
  deriving DecidableEq, Repr

/-- The classes of errors. -/
inductive ErrorKind where
  | format
  | invalidArgument
  | partialChain
  | invalidProofOfWork
  | scriptExecution
  | serialization
  | config
  deriving DecidableEq, Repr

/-- The phrase that the wording of errors of a class starts with. -/
def ErrorKind.phrase : ErrorKind → String
  | .format => "Format error"
  | .invalidArgument => "Invalid argument"
  | .partialChain => "Cannot calculate work of a partial chain"
  | .invalidProofOfWork => "Invalid proof of work"
  | .scriptExecution => "Script execution failed"
  | .serialization => "Serialization error"
  | .config => "Configuration error"

namespace Error

/-- The class of an error. A header that does not link and an input that does not exist
are arguments that the caller should not have given. -/
def kind : Error → ErrorKind
  | .format _ => .format
  | .link _ => .invalidArgument
  | .noSuchInput _ => .invalidArgument
  | .partialChain _ => .partialChain
  | .target _ => .invalidProofOfWork
  | .script _ => .scriptExecution
  | .decode _ => .serialization
  | .params _ => .config

/-- The wording of the cause. -/
def detail : Error → String
  | .format cause => cause.message
  | .link cause => cause.message
  | .noSuchInput cause => cause.message
  | .partialChain cause => cause.message
  | .target cause => cause.message
  | .script cause => cause.message
  | .decode cause => cause.message
  | .params cause => cause.message

/-- The wording of an error. -/
def message (e : Error) : String := s!"{e.kind.phrase}: {e.detail}"

/-- The error for an input that does not spend its output. -/
def ofSpend : SpendError → Error
  | .noSuchInput cause => .noSuchInput cause
  | .script cause => .script cause

end Error

end BlockRules
