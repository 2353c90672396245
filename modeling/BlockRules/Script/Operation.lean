import BlockRules.Digest
import BlockRules.Script.Number
import BlockRules.Script.Opcode
import BlockRules.Script.Stack

/-!
# Operations

What an opcode that pushes no data does, as a type: the 256 opcodes fall into a few
families, and the operations of one family differ by an argument only.

* **arrangements** (`Arrange`) change the main stack without looking outside of it and
  fail only for want of items;
* **numeric operations** (`Unary`, `Binary`) are functions on integers;
* **hashes** (`HashOp`) are functions on bytes;
* the rest are constructors of `Operation` of their own.

`Operation.ofOpcode` is the table.
-/

namespace BlockRules

/-- Operations that rearrange the main stack. -/
inductive Arrange where
  | drop | drop2 | dup | dup2 | dup3 | ifDup | nip | over | over2 | rot | rot2 | swap | swap2
  | tuck | depth | size
  deriving DecidableEq, Repr

/-- The stack afterwards, top first; nothing if it is too short. -/
def Arrange.apply : Arrange → Stack Bytes → Option (Stack Bytes)
  | .drop, _ :: s => some s
  | .drop2, _ :: _ :: s => some s
  | .dup, a :: s => some (a :: a :: s)
  | .dup2, a :: b :: s => some (a :: b :: a :: b :: s)
  | .dup3, a :: b :: c :: s => some (a :: b :: c :: a :: b :: c :: s)
  | .ifDup, a :: s => some (if truthy a then a :: a :: s else a :: s)
  | .nip, a :: _ :: s => some (a :: s)
  | .over, a :: b :: s => some (b :: a :: b :: s)
  | .over2, a :: b :: c :: d :: s => some (c :: d :: a :: b :: c :: d :: s)
  | .rot, a :: b :: c :: s => some (c :: a :: b :: s)
  | .rot2, a :: b :: c :: d :: e :: f :: s => some (e :: f :: a :: b :: c :: d :: s)
  | .swap, a :: b :: s => some (b :: a :: s)
  | .swap2, a :: b :: c :: d :: s => some (c :: d :: a :: b :: s)
  | .tuck, a :: b :: s => some (a :: b :: a :: s)
  | .depth, s => some (ScriptNum.encode s.length :: s)
  | .size, a :: s => some (ScriptNum.encode a.length :: a :: s)
  | _, _ => none

/-- Functions of one number. -/
inductive Unary where
  | increment | decrement | negate | abs | isZero | isNonzero
  deriving DecidableEq, Repr

/-- The value of a function; truth values are one and zero. -/
def Unary.apply : Unary → Int → Int
  | .increment, n => n + 1
  | .decrement, n => n - 1
  | .negate, n => -n
  | .abs, n => n.natAbs
  | .isZero, n => if n = 0 then 1 else 0
  | .isNonzero, n => if n ≠ 0 then 1 else 0

/-- Functions of two numbers, the second one from the top of the stack. -/
inductive Binary where
  | add | sub | boolAnd | boolOr | equal | notEqual | less | greater | lessOrEqual | greaterOrEqual
  | min | max
  deriving DecidableEq, Repr

/-- The value of a function; truth values are one and zero. -/
def Binary.apply : Binary → Int → Int → Int
  | .add, a, b => a + b
  | .sub, a, b => a - b
  | .boolAnd, a, b => if a ≠ 0 ∧ b ≠ 0 then 1 else 0
  | .boolOr, a, b => if a ≠ 0 ∨ b ≠ 0 then 1 else 0
  | .equal, a, b => if a = b then 1 else 0
  | .notEqual, a, b => if a ≠ b then 1 else 0
  | .less, a, b => if a < b then 1 else 0
  | .greater, a, b => if b < a then 1 else 0
  | .lessOrEqual, a, b => if a ≤ b then 1 else 0
  | .greaterOrEqual, a, b => if b ≤ a then 1 else 0
  | .min, a, b => if a ≤ b then a else b
  | .max, a, b => if a ≤ b then b else a

/-- Hash functions of scripts. -/
inductive HashOp where
  | ripemd160 | sha1 | sha256 | hash160 | hash256
  deriving DecidableEq, Repr

/-- The hash as it is left on the stack. -/
def HashOp.apply : HashOp → Bytes → Bytes
  | .ripemd160, bs => BlockRules.ripemd160 bs
  | .sha1, bs => BlockRules.sha1 bs
  | .sha256, bs => BlockRules.sha256 bs
  | .hash160, bs => (BlockRules.hash160 bs).bytesLE
  | .hash256, bs => (doubleSha256 bs).bytesLE

/-- What an opcode does. Where there is a flag `verify`, the operation checks its result
at once instead of leaving it on the stack. -/
inductive Operation where
  /-- pushes a number -/
  | number (n : Int)
  | nop
  /-- reserved for later rules -/
  | reservedNop
  | checkLockTime
  | checkSequence
  | checkColdStake
  /-- starts a branch that runs on a true item, or on a false one if inverted -/
  | openBranch (inverted : Bool)
  | switchBranch
  | closeBranch
  /-- fails even where nothing is executed -/
  | forbidden
  | verify
  | abort
  | toAlt
  | fromAlt
  | arrange (a : Arrange)
  /-- copies an item from below to the top, or moves it there -/
  | fetch (move : Bool)
  | equal (verify : Bool)
  | unary (f : Unary)
  | binary (f : Binary) (verify : Bool)
  | within
  | hash (h : HashOp)
  | codeSeparator
  | checkSig (verify : Bool)
  | checkMultiSig (verify : Bool)
  /-- fails where it is executed -/
  | invalid
  deriving DecidableEq, Repr

namespace Operation

/-- The operations of the opcodes from `0x61` to `0xb9`, in order. Disabled ones never
get as far as this table. -/
def table : List Operation :=
  [.nop, .invalid, .openBranch false, .openBranch true, .forbidden, .forbidden, .switchBranch,
   .closeBranch, .verify, .abort, .toAlt, .fromAlt,
   .arrange .drop2, .arrange .dup2, .arrange .dup3, .arrange .over2, .arrange .rot2,
   .arrange .swap2, .arrange .ifDup, .arrange .depth, .arrange .drop, .arrange .dup, .arrange .nip,
   .arrange .over, .fetch false, .fetch true, .arrange .rot, .arrange .swap, .arrange .tuck,
   .invalid, .invalid, .invalid, .invalid, .arrange .size,
   .invalid, .invalid, .invalid, .invalid, .equal false, .equal true, .invalid, .invalid,
   .unary .increment, .unary .decrement, .invalid, .invalid, .unary .negate, .unary .abs,
   .unary .isZero, .unary .isNonzero,
   .binary .add false, .binary .sub false, .invalid, .invalid, .invalid, .invalid, .invalid,
   .binary .boolAnd false, .binary .boolOr false, .binary .equal false, .binary .equal true,
   .binary .notEqual false, .binary .less false, .binary .greater false, .binary .lessOrEqual false,
   .binary .greaterOrEqual false, .binary .min false, .binary .max false, .within,
   .hash .ripemd160, .hash .sha1, .hash .sha256, .hash .hash160, .hash .hash256, .codeSeparator,
   .checkSig false, .checkSig true, .checkMultiSig false, .checkMultiSig true,
   .reservedNop, .checkLockTime, .checkSequence, .reservedNop, .reservedNop, .reservedNop,
   .reservedNop, .reservedNop, .reservedNop, .checkColdStake]

/-- The operation of an opcode that pushes no data. -/
def ofOpcode (op : UInt8) : Operation :=
  if op = Opcode.negativeOne then .number (-1)
  else if Opcode.one ≤ op ∧ op ≤ Opcode.sixteen then .number (op.toNat - 0x50 : Nat)
  else if Opcode.sixteen < op then (table[op.toNat - 0x61]?).getD .invalid
  else .invalid

/-- The operation is carried out even in a branch that is not executed. -/
def runsWhenSkipped : Operation → Bool
  | .openBranch _ | .switchBranch | .closeBranch | .forbidden => true
  | _ => false

end Operation

end BlockRules
