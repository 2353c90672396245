import BlockRules.Proofs.Script.Slices
import BlockRules.Script.Machine

/-!
# Operations by address

The machine takes the items it needs off its stacks by their shape. The same operations can
be written for a stack that is addressed from the top (`BlockRules.Script.Stack`): first it is
asked whether there are enough items, and then they are fetched, exchanged, put in and taken
out by number. Here they are written in this way. Whatever can be refused on the way is not an
error of the script but a breakdown: an address outside of the stack, a slice outside of the
script, a number that is no word.

* `Procedure` — a program that changes a machine and may stop;
* `Procedure.perform` — the operations as such programs. The multi-signature check is the one
  that calculates its addresses: it walks over keys and signatures with two counters and
  clears the stack with a third one;
* `Procedure.step`, `Procedure.run` and `Procedure.evaluate` — whole scripts.
-/

namespace BlockRules

/-- A program that changes a machine and may stop. -/
abbrev Procedure := EStateM Stop Machine

namespace Procedure

open Machine (whenVerified)

/-- What a program leads to. -/
def outcome (x : Procedure Unit) (m : Machine) : Outcome :=
  match x m with
  | .ok () m => .running m
  | .error stop m => .halted stop m

/-! ## Single accesses -/

variable {σ α : Type}

/-- Stops with a verdict. -/
def fail (e : ScriptError) : EStateM Stop σ α := throw (.failed e)

/-- A refused address is a breakdown. -/
def orCrash : Except StackError α → EStateM Stop σ α
  | .ok a => pure a
  | .error e => throw (.crashed e.message)

/-- A fault is a breakdown. -/
def orFault : Except Fault α → EStateM Stop σ α
  | .ok a => pure a
  | .error fault => throw (.ofFault fault)

/-- Stops with a verdict under a condition. -/
def failWhen (c : Prop) [Decidable c] (e : ScriptError) : EStateM Stop σ Unit :=
  if c then fail e else pure ()

/-- Fails unless the stack has so many items. -/
def need (count : Nat) : Procedure Unit := do
  failWhen ((← get).stack.length < count) .invalidStackOperation

/-- The item at a depth, the top one at depth one. -/
def item (depth : Nat) : Procedure Bytes := do
  orCrash (Stack.top? (← get).stack (-depth))

/-- Puts an item on top. -/
def push (item : Bytes) : Procedure Unit := modify (·.push item)

/-- Takes the top item off. Without one this is a breakdown. -/
def pop : Procedure Bytes := do
  let (item, rest) ← orCrash (Stack.pop? (← get).stack)
  modify ({ · with stack := rest })
  return item

/-- Exchanges the items at two depths. -/
def exchange (a b : Nat) : Procedure Unit := do
  let stack ← orCrash (Stack.swap? (← get).stack (-a) (-b))
  modify ({ · with stack })

/-- Puts an item in, so that it stands below as many items as the depth counts. -/
def putIn (depth : Nat) (item : Bytes) : Procedure Unit := do
  let stack ← orCrash (Stack.insert? (← get).stack (-depth) item)
  modify ({ · with stack })

/-- Takes out the item at a depth. -/
def takeOut (depth : Nat) : Procedure Bytes := do
  let (item, stack) ← orCrash (Stack.remove? (← get).stack (-depth))
  modify ({ · with stack })
  return item

/-- Takes out the items from one depth up to, but without, another one. -/
def takeOutRange (first last : Nat) : Procedure Unit := do
  let stack ← orCrash (Stack.removeRange? (← get).stack (-first) (-last))
  modify ({ · with stack })

/-- The item at a depth, which is copied or moved. -/
def fetched (move : Bool) (depth : Nat) : Procedure Bytes :=
  if move then takeOut depth else item depth

/-- The number at a depth. -/
def number (env : Env) (limit depth : Nat) : Procedure Int := do
  match env.flags.readNumber limit (← item depth) with
  | .error stop => throw stop
  | .ok n => return n

/-- Asks the checker. -/
def ask (env : Env) (q : Query) : Procedure Bool := do
  let (reply, journal) := (← get).journal.ask env.checker q
  modify ({ · with journal })
  match reply with
  | .yes => return true
  | .no => return false
  | .crash text => throw (.ofCrash text)

/-- Leaves a truth value, or takes it off again after checking it. -/
def conclude (ifFalse : Option ScriptError) (holds : Bool) : Procedure Unit := do
  push (boolItem holds)
  if let some e := ifFalse then
    if !holds then fail e
    discard pop

/-! ## Operations -/

/-- The operations that only move or copy items: how many there must be is asked first. -/
def arrange : Arrange → Procedure Unit
  | .drop => do need 1; discard pop
  | .drop2 => do need 2; discard pop; discard pop
  | .dup => do need 1; push (← item 1)
  | .dup2 => do need 2; let a ← item 2; let b ← item 1; push a; push b
  | .dup3 => do need 3; let a ← item 3; let b ← item 2; let c ← item 1; push a; push b; push c
  | .ifDup => do need 1; let top ← item 1; if truthy top then push top
  | .nip => do need 2; discard (takeOut 2)
  | .over => do need 2; push (← item 2)
  | .over2 => do need 4; let a ← item 4; let b ← item 3; push a; push b
  | .rot => do need 3; exchange 3 2; exchange 2 1
  | .rot2 => do need 6; let a ← item 6; let b ← item 5; takeOutRange 6 4; push a; push b
  | .swap => do need 2; exchange 2 1
  | .swap2 => do need 4; exchange 4 2; exchange 3 1
  | .tuck => do need 2; putIn 3 (← item 1)
  | .depth => do push (ScriptNum.encode (← get).stack.length)
  | .size => do need 1; push (ScriptNum.encode (← item 1).length)

/-- Copies or moves the item that the top item counts down to. -/
def fetch (env : Env) (move : Bool) : Procedure Unit := do
  need 2
  let n := ScriptNum.clamp32 (← number env Limit.number 1)
  discard pop
  failWhen (n < 0 ∨ ((← get).stack.length : Int) ≤ n) .invalidStackOperation
  push (← fetched move (n.toNat + 1))

/-- Replaces a number by a function of it. What is worked out is a word of 64 bits. -/
def unary (env : Env) (f : Unary) : Procedure Unit := do
  need 1
  let n ← orFault (signed64 (f.apply (← number env Limit.number 1)))
  discard pop
  push (ScriptNum.encode n)

/-- Replaces two numbers by a function of both, or checks it at once. -/
def binary (env : Env) (f : Binary) (verify : Bool) : Procedure Unit := do
  need 2
  let a ← number env Limit.number 2
  let b ← number env Limit.number 1
  let n ← orFault (signed64 (f.apply a b))
  discard pop
  discard pop
  if verify then conclude (some .numEqualVerify) (n ≠ 0) else push (ScriptNum.encode n)

/-- Whether a number is between two others, the lower one included. -/
def within (env : Env) : Procedure Unit := do
  need 3
  let x ← number env Limit.number 3
  let low ← number env Limit.number 2
  let high ← number env Limit.number 1
  takeOutRange 3 0
  conclude none (low ≤ x && x < high)

/-- The items at so many depths from one on. -/
def items (depth : Nat) : Nat → Procedure (List Bytes)
  | 0 => return []
  | count + 1 => do
    let first ← item depth
    return first :: (← items (depth + 1) count)

/-- A script without the pushes of some signatures. -/
def deleteAll : List Bytes → Bytes → Except Fault Bytes
  | [], code => .ok code
  | sig :: sigs, code => do
    let (kept, _) ← Script.findAndDeleteAt code (Script.pushData sig)
    deleteAll sigs kept

/-- The signed part of the script, in the legacy version without the signatures. -/
def signedCode (env : Env) (sigs : List Bytes) : Procedure Bytes := do
  let code ← orFault (env.script.slice (← get).codeStart env.script.length)
  match env.version with
  | .witnessV0 => return code
  | .legacy => orFault (deleteAll sigs code)

/-- Checks how a signature and a key are written, and asks the checker about them. -/
def askSignature (env : Env) (code sig key : Bytes) : Procedure Bool := do
  match env.flags.checkForms env.version sig key with
  | .error stop => throw stop
  | .ok () => ask env (.signature sig key code env.version)

/-- A signature check, which takes the signature and the key off at its end. -/
def checkSig (env : Env) (verify : Bool) : Procedure Unit := do
  need 2
  let sig ← item 2
  let key ← item 1
  let code ← signedCode env [sig]
  let success ← askSignature env code sig key
  failWhen (!success && env.flags.has .nullFail && !sig.isEmpty) .nullFail
  discard pop
  discard pop
  conclude (whenVerified verify .checkSigVerify) success

/-- Tries the key at a depth on the signature at another one, and goes on with the next key,
and with the next signature if they fit. There are so many signatures and keys left; to run
out of keys before is a breakdown. -/
def matchKeys (env : Env) (code : Bytes) : Nat → Nat → Nat → Nat → Procedure Bool
  | 0, _, _, _ => return true
  | _ + 1, 0, _, _ => throw (.ofFault .indexOutOfRange)
  | sigs + 1, keys + 1, sigDepth, keyDepth => do
    let sig ← item sigDepth
    let key ← item keyDepth
    let fits ← askSignature env code sig key
    let left := if fits then sigs else sigs + 1
    if keys < left then return false
    else matchKeys env code left keys (if fits then sigDepth + 1 else sigDepth) (keyDepth + 1)

/-- Takes items off one by one. After a failed check, those behind the first `keysLeft` ones
are signatures that must be empty. -/
def clear (env : Env) (success : Bool) : Nat → Nat → Procedure Unit
  | 0, _ => return ()
  | count + 1, keysLeft => do
    let top ← item 1
    failWhen (!success && env.flags.has .nullFail && keysLeft == 0 && !top.isEmpty) .nullFail
    discard pop
    clear env success count (keysLeft - 1)

/-- The number of keys or signatures at a depth, which must not be greater than a bound. -/
def count (env : Env) (depth bound : Nat) (e : ScriptError) : Procedure Nat := do
  let n := ScriptNum.clamp32 (← number env Limit.number depth)
  failWhen (n < 0 ∨ (bound : Int) < n) e
  return n.toNat

/-- Counts the keys of a multi-signature check as operations. -/
def countOperations (keys : Nat) : Procedure Unit := do
  let opCount ← orFault (unsigned64 ((← get).opCount + keys))
  modify ({ · with opCount })
  failWhen (Limit.operations < opCount) .opCount

/-- Takes everything off that a multi-signature check has looked at, and an extra item. -/
def settleMultiSig (env : Env) (verify : Bool) (keys sigs : Nat) (success : Bool) :
    Procedure Unit := do
  clear env success (keys + 2 + sigs) (keys + 2)
  need 1
  failWhen (env.flags.has .nullDummy && !(← item 1).isEmpty) .sigNullDummy
  discard pop
  conclude (whenVerified verify .checkMultiSigVerify) success

/-- A multi-signature check with its counts known and its items there. -/
def judgeMultiSig (env : Env) (verify : Bool) (keys sigs : Nat) : Procedure Unit := do
  let code ← signedCode env (← items (keys + 3) sigs)
  let success ← matchKeys env code sigs keys (keys + 3) 2
  settleMultiSig env verify keys sigs success

/-- A multi-signature check. The keys count as operations before it is asked for the signatures. -/
def checkMultiSig (env : Env) (verify : Bool) : Procedure Unit := do
  need 1
  let keys ← count env 1 Limit.keys .pubkeyCount
  countOperations keys
  need (keys + 2)
  let sigs ← count env (keys + 2) keys .sigCount
  need (keys + sigs + 3)
  judgeMultiSig env verify keys sigs

/-- A time that the top item states: it is not negative, and the checker agrees unless the
number says that there is nothing to ask. -/
def checkTime (env : Env) (query : Int → Query) (exempt : Int → Bool) : Procedure Unit := do
  need 1
  let n ← number env Limit.lockTime 1
  failWhen (n < 0) .negativeLockTime
  if exempt n then return ()
  failWhen (!(← ask env (query n))) .unsatisfiedLockTime

/-- Opens a conditional. In a branch that is skipped the stack is not looked at. -/
def openBranch (env : Env) (inverted : Bool) : Procedure Unit := do
  if (← get).executing then
    failWhen ((← get).stack.isEmpty) .unbalancedConditional
    let top ← item 1
    failWhen
      (env.version == .witnessV0 && env.flags.has .minimalIf && !Machine.isMinimalCondition top)
      .minimalIf
    discard pop
    modify fun m => { m with conditions := (truthy top != inverted) :: m.conditions }
  else modify fun m => { m with conditions := false :: m.conditions }

/-- Moves the top item to the second stack. -/
def toAlt : Procedure Unit := do
  need 1
  let top ← pop
  modify fun m => { m with alt := top :: m.alt }

/-- Checks that the top item is true, and takes it off. -/
def checkTop : Procedure Unit := do
  need 1
  failWhen (!truthy (← item 1)) .verify
  discard pop

/-- Replaces the top item by its hash. -/
def hash (h : HashOp) : Procedure Unit := do
  need 1
  push (h.apply (← pop))

/-- Compares the two top items. -/
def equal (verify : Bool) : Procedure Unit := do
  need 2
  let same := (← item 2) == (← item 1)
  discard pop
  discard pop
  conclude (whenVerified verify .equalVerify) same

/-- What the machine itself does; for operations that address no item. -/
def plainly (x : Machine → Outcome) : Procedure Unit := fun m =>
  match x m with
  | .running m => .ok () m
  | .halted stop m => .error stop m

/-- The operations with every access by address. -/
def perform (env : Env) (op : Operation) : Procedure Unit :=
  match op with
  | .checkLockTime =>
    if env.flags.has .checkLockTimeVerify then checkTime env .lockTime fun _ => false
    else plainly (Machine.reserved env)
  | .checkSequence =>
    if env.flags.has .checkSequenceVerify then
      checkTime env .sequence fun n => n.toNat.testBit 31
    else plainly (Machine.reserved env)
  | .openBranch inverted => openBranch env inverted
  | .verify => checkTop
  | .toAlt => toAlt
  | .arrange a => arrange a
  | .fetch move => fetch env move
  | .equal verify => equal verify
  | .unary f => unary env f
  | .binary f verify => binary env f verify
  | .within => within env
  | .hash h => hash h
  | .checkSig verify => checkSig env verify
  | .checkMultiSig verify => checkMultiSig env verify
  | other => plainly (Machine.perform env other)

/-! ## Scripts -/

/-- Counts an instruction; the offset and the number of operations are words. -/
def countInstruction (i : Instruction) : Procedure Unit := do
  let m ← get
  let position ← orFault (unsigned64 (m.position + i.bytes.length))
  let opCount ← orFault (unsigned64 (if i.isPush then m.opCount else m.opCount + 1))
  set { m with position, opCount }

/-- Executes an instruction, in a skipped branch only what conditionals are made of. -/
def execute (env : Env) (i : Instruction) : Procedure Unit := do
  let active := (← get).executing
  match i.data with
  | some data =>
    if active then
      failWhen (env.flags.has .minimalData && !Script.isMinimalPush i.opcode data) .minimalData
      push data
  | none =>
    let op := Operation.ofOpcode i.opcode
    if active || op.runsWhenSkipped then perform env op

/-- Checks the limit of both stacks together. -/
def checkStackSize : Procedure Unit := do
  let m ← get
  failWhen (Limit.stackItems < m.stack.length + m.alt.length) .stackSize

/-- One step, with the limits checked in the order in which they are reported. -/
def step (env : Env) (i : Instruction) : Procedure Unit := do
  countInstruction i
  failWhen (i.data.any fun data => Limit.pushSize < data.length) .pushSize
  failWhen (!i.isPush && Limit.operations < (← get).opCount) .opCount
  failWhen (Opcode.isDisabled i.opcode) .disabledOpCode
  execute env i
  checkStackSize

/-- The instructions one after the other, up to the first that stops. -/
def run (env : Env) : List Instruction → Procedure Unit
  | [] => return ()
  | i :: is => do
    step env i
    run env is

/-- The evaluation of a script with every access by address. -/
def evaluate (flags : Flags) (checker : Checker) (version : SigVersion) (script : Bytes)
    (stack : Stack Bytes) (journal : Journal) : Outcome :=
  let start : Machine := { stack, journal }
  if Limit.scriptSize < script.length then start.fail .scriptSize
  else
    let env : Env := { flags, checker, version, script }
    Machine.finish (Script.tail script) ((run env (Script.instructions script)).outcome start)

end Procedure

end BlockRules
