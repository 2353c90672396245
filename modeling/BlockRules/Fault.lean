/-!
# Faults

Arithmetic on machine words and access by position have cases without a result. Where
such a case can be written down, the operation that meets it ends with a `Fault` and
gives no value. Whether one can arise is then a statement about the operation.
-/

namespace BlockRules

/-- Why an operation has no result. -/
inductive Fault where
  | indexOutOfRange
  | wordOverflow
  | shiftTooLarge
  | divisionByZero
  | emptyRange
  deriving DecidableEq, Repr

/-- The wording of a fault. -/
def Fault.message : Fault → String
  | .indexOutOfRange => "index out of range"
  | .wordOverflow => "word overflow"
  | .shiftTooLarge => "shift too large"
  | .divisionByZero => "division by zero"
  | .emptyRange => "empty range"

/-- A number that fits a signed word of 64 bits. -/
def signed64 (n : Int) : Except Fault Int :=
  if -0x8000000000000000 ≤ n ∧ n ≤ 0x7fffffffffffffff then .ok n else .error .wordOverflow

/-- A number that fits an unsigned word of 32 bits. -/
def unsigned32 (n : Nat) : Except Fault Nat :=
  if n ≤ 0xffffffff then .ok n else .error .wordOverflow

/-- A number that fits an unsigned word of 64 bits. -/
def unsigned64 (n : Nat) : Except Fault Nat :=
  if n ≤ 0xffffffffffffffff then .ok n else .error .wordOverflow

end BlockRules
