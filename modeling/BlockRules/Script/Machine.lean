import BlockRules.Script.Build
import BlockRules.Script.Edit
import BlockRules.Script.Encoding
import BlockRules.Script.Operation

/-!
# The script machine

Evaluating a script is a run of a machine over its instructions.

* **state** — `Machine`: two stacks, the open conditionals, the number of operations so
  far, the place where the signed part of the script starts, and the journal;
* **one step** — `Machine.step`: the checks that every instruction undergoes, then the
  push or the operation, then the check of the stack size;
* **a run** — `Machine.run` takes one step after another until the instructions are used
  up or one of them halts. `Script.evaluate` starts it.

A halted run keeps the state it halted in: what a failing operation had already done to
the stacks stays done (`Outcome.halted`). Nothing here depends on time or on anything
outside of the machine but the answers of the checker.
-/

namespace BlockRules

namespace Limit

/-- The largest script in bytes. -/
def scriptSize : Nat := 10000

/-- The largest push in bytes. -/
def pushSize : Nat := 520

/-- The largest number of operations in one script. -/
def operations : Nat := 201

/-- The largest number of items on both stacks. -/
def stackItems : Nat := 1000

/-- The largest number of keys in one multi-signature check. -/
def keys : Nat := 20

/-- The size in bytes of a number. -/
def number : Nat := 4

/-- The size in bytes of a lock time. -/
def lockTime : Nat := 5

end Limit

/-- What stays fixed during a run. -/
structure Env where
  flags : Flags
  checker : Checker
  version : SigVersion
  script : Bytes

/-- The state of a run. -/
structure Machine where
  /-- the main stack, top first -/
  stack : Stack Bytes := []
  /-- the second stack, top first -/
  alt : Stack Bytes := []
  /-- whether the branch of each open conditional is executed, innermost first -/
  conditions : List Bool := []
  opCount : Nat := 0
  /-- the offset from which on the script is signed -/
  codeStart : Nat := 0
  /-- the offset just past the current instruction -/
  position : Nat := 0
  journal : Journal := {}
  deriving DecidableEq, Repr

/-- What a step leads to. -/
inductive Outcome where
  | running (m : Machine)
  | halted (stop : Stop) (m : Machine)
  deriving DecidableEq, Repr

namespace Machine

/-- Stops, with the machine as it is. -/
def halt (m : Machine) (stop : Stop) : Outcome := .halted stop m

/-- Stops with a verdict. -/
def fail (m : Machine) (e : ScriptError) : Outcome := .halted (.failed e) m

/-- Puts an item on the main stack. -/
def push (m : Machine) (item : Bytes) : Machine := { m with stack := item :: m.stack }

/-- No open conditional skips the current branch. -/
def executing (m : Machine) : Bool := m.conditions.all id

/-- Leaves a truth value on the stack, or, if there is an error for the case that it is
false, checks it. The false value then stays on the stack. -/
def conclude (m : Machine) (ifFalse : Option ScriptError) (holds : Bool) : Outcome :=
  match ifFalse with
  | none => .running (m.push (boolItem holds))
  | some e => if holds then .running m else (m.push (boolItem false)).fail e

/-- The error of an operation that checks its result at once. -/
def whenVerified (verify : Bool) (e : ScriptError) : Option ScriptError :=
  if verify then some e else none

/-- An operation that is reserved for later rules. -/
def reserved (env : Env) (m : Machine) : Outcome :=
  if env.flags.has .discourageUpgradableNops then m.fail .discourageUpgradableNops else .running m

/-- Asks the checker about a time; the stack stays as it is. -/
def askTime (env : Env) (m : Machine) (q : Query) : Outcome :=
  match m.journal.ask env.checker q with
  | (.yes, journal) => .running { m with journal }
  | (.no, journal) => ({ m with journal } : Machine).fail .unsatisfiedLockTime
  | (.crash message, journal) => ({ m with journal } : Machine).halt (.ofCrash message)

/-- The top item is a lock time that has passed. -/
def checkLockTime (env : Env) (m : Machine) : Outcome :=
  match m.stack with
  | [] => m.fail .invalidStackOperation
  | top :: _ =>
    match env.flags.readNumber Limit.lockTime top with
    | .error stop => m.halt stop
    | .ok n => if n < 0 then m.fail .negativeLockTime else m.askTime env (.lockTime n)

/-- The top item is a relative lock time that has passed, or is marked as none. -/
def checkSequence (env : Env) (m : Machine) : Outcome :=
  match m.stack with
  | [] => m.fail .invalidStackOperation
  | top :: _ =>
    match env.flags.readNumber Limit.lockTime top with
    | .error stop => m.halt stop
    | .ok n =>
      if n < 0 then m.fail .negativeLockTime
      else if n.toNat.testBit 31 then .running m
      else m.askTime env (.sequence n)

/-- The spending transaction is a coinstake, and gets marked. -/
def checkColdStake (env : Env) (m : Machine) : Outcome :=
  match env.checker.transaction with
  | some tx =>
    if tx.isCoinstake then .running { m with journal := { m.journal with coldStake := true } }
    else m.fail .checkColdStakeVerify
  | none => m.fail .checkColdStakeVerify

/-- The condition of a branch is written as the flags ask. -/
def isMinimalCondition (item : Bytes) : Bool := item == [] || item == [1]

/-- Opens a conditional. Where nothing is executed, no item is taken and neither branch
will be. -/
def openBranch (env : Env) (inverted : Bool) (m : Machine) : Outcome :=
  if m.executing then
    match m.stack with
    | [] => m.fail .unbalancedConditional
    | top :: rest =>
      if env.version == .witnessV0 && env.flags.has .minimalIf && !isMinimalCondition top then
        m.fail .minimalIf
      else .running { m with stack := rest, conditions := (truthy top != inverted) :: m.conditions }
  else .running { m with conditions := false :: m.conditions }

/-- Executes the other branch of the innermost conditional. -/
def switchBranch (m : Machine) : Outcome :=
  match m.conditions with
  | [] => m.fail .unbalancedConditional
  | c :: cs => .running { m with conditions := (!c) :: cs }

/-- Ends the innermost conditional. -/
def closeBranch (m : Machine) : Outcome :=
  match m.conditions with
  | [] => m.fail .unbalancedConditional
  | _ :: cs => .running { m with conditions := cs }

/-- Copies or moves the item that the top item counts down to. -/
def fetch (env : Env) (move : Bool) (m : Machine) : Outcome :=
  match m.stack with
  | top :: next :: rest =>
    match env.flags.readNumber Limit.number top with
    | .error stop => m.halt stop
    | .ok n =>
      let below := next :: rest
      let m := { m with stack := below }
      let depth := ScriptNum.clamp32 n
      if depth < 0 then m.fail .invalidStackOperation
      else
        match below[depth.toNat]? with
        | none => m.fail .invalidStackOperation
        | some item =>
          .running { m with stack := item :: if move then below.eraseIdx depth.toNat else below }
  | _ => m.fail .invalidStackOperation

/-- Replaces the top item by a function of its number. -/
def unary (env : Env) (f : Unary) (m : Machine) : Outcome :=
  match m.stack with
  | a :: rest =>
    match env.flags.readNumber Limit.number a with
    | .error stop => m.halt stop
    | .ok a =>
      match signed64 (f.apply a) with
      | .error fault => m.halt (.ofFault fault)
      | .ok n => .running { m with stack := ScriptNum.encode n :: rest }
  | [] => m.fail .invalidStackOperation

/-- Replaces the two top items by a function of their numbers, or checks it. -/
def binary (env : Env) (f : Binary) (verify : Bool) (m : Machine) : Outcome :=
  match m.stack with
  | b :: a :: rest =>
    match env.flags.readNumber Limit.number a with
    | .error stop => m.halt stop
    | .ok a =>
      match env.flags.readNumber Limit.number b with
      | .error stop => m.halt stop
      | .ok b =>
        match signed64 (f.apply a b) with
        | .error fault => m.halt (.ofFault fault)
        | .ok n =>
          let m := { m with stack := rest }
          if verify then m.conclude (some .numEqualVerify) (n ≠ 0)
          else .running (m.push (ScriptNum.encode n))
  | _ => m.fail .invalidStackOperation

/-- The third item lies between the second one and the top one, the top one excluded. -/
def within (env : Env) (m : Machine) : Outcome :=
  match m.stack with
  | high :: low :: x :: rest =>
    match env.flags.readNumber Limit.number x with
    | .error stop => m.halt stop
    | .ok x =>
      match env.flags.readNumber Limit.number low with
      | .error stop => m.halt stop
      | .ok low =>
        match env.flags.readNumber Limit.number high with
        | .error stop => m.halt stop
        | .ok high => ({ m with stack := rest } : Machine).conclude none (low ≤ x && x < high)
  | _ => m.fail .invalidStackOperation

/-! ### Signatures -/

/-- The part of the script that signatures sign: from the start of the signed part to the
end and, in the legacy version, without the signatures themselves. -/
def signedCode (env : Env) (m : Machine) (sigs : List Bytes) : Except Fault Bytes :=
  if env.script.length < m.codeStart then .error .indexOutOfRange
  else
    let code := env.script.drop m.codeStart
    match env.version with
    | .witnessV0 => .ok code
    | .legacy =>
      .ok (sigs.foldl (fun code sig => (Script.findAndDelete code (Script.pushData sig)).1) code)

/-- The signature below the top item is one by the key on top. -/
def checkSig (env : Env) (verify : Bool) (m : Machine) : Outcome :=
  match m.stack with
  | key :: sig :: rest =>
    match m.signedCode env [sig] with
    | .error fault => m.halt (.ofFault fault)
    | .ok code =>
      match env.flags.checkForms env.version sig key with
      | .error stop => m.halt stop
      | .ok () =>
        let (reply, journal) := m.journal.ask env.checker (.signature sig key code env.version)
        let asked := { m with journal }
        match reply with
        | .crash message => asked.halt (.ofCrash message)
        | .yes => { asked with stack := rest }.conclude (whenVerified verify .checkSigVerify) true
        | .no =>
          if env.flags.has .nullFail && !sig.isEmpty then asked.fail .nullFail
          else { asked with stack := rest }.conclude (whenVerified verify .checkSigVerify) false
  | _ => m.fail .invalidStackOperation

/-- Whether every signature has a key of its own, in the order of the keys: each key is
tried on the first signature that is left, until more signatures than keys are left. -/
def matchKeys (env : Env) (code : Bytes) :
    List Bytes → List Bytes → Journal → Except Stop Bool × Journal
  | [], _, journal => (.ok true, journal)
  | _ :: _, [], journal => (.ok false, journal)
  | sig :: sigs, key :: keys, journal =>
    match env.flags.checkForms env.version sig key with
    | .error stop => (.error stop, journal)
    | .ok () =>
      match journal.ask env.checker (.signature sig key code env.version) with
      | (.crash message, journal) => (.error (.ofCrash message), journal)
      | (.yes, journal) =>
        if keys.length < sigs.length then (.ok false, journal)
        else matchKeys env code sigs keys journal
      | (.no, journal) =>
        if keys.length < sigs.length + 1 then (.ok false, journal)
        else matchKeys env code (sig :: sigs) keys journal

/-- Ends a multi-signature check whose result is known. The stack still holds the counts,
keys and signatures, `taken` items in all, the signatures last of them, and below them
the extra item. -/
def settleMultiSig (env : Env) (verify : Bool) (taken : Nat) (sigs : List Bytes) (success : Bool)
    (m : Machine) : Outcome :=
  if !success && env.flags.has .nullFail && sigs.any (!·.isEmpty) then
    let seen := taken - sigs.length + (sigs.takeWhile List.isEmpty).length
    ({ m with stack := m.stack.drop seen } : Machine).fail .nullFail
  else
    let m := { m with stack := m.stack.drop taken }
    match m.stack with
    | [] => m.fail .invalidStackOperation
    | dummy :: rest =>
      if env.flags.has .nullDummy && !dummy.isEmpty then m.fail .sigNullDummy
      else ({ m with stack := rest } : Machine).conclude
        (whenVerified verify .checkMultiSigVerify) success

/-- A number of items that a multi-signature check is told by an item: between zero and a
bound. -/
def readCount (env : Env) (bound : Nat) (item : Bytes) : Except Stop (Option Nat) :=
  match env.flags.readNumber Limit.number item with
  | .error stop => .error stop
  | .ok n =>
    let n := ScriptNum.clamp32 n
    .ok (if n < 0 ∨ (bound : Int) < n then none else some n.toNat)

/-- From the top: a number of keys, the keys, a number of signatures, the signatures, and
an extra item. -/
def checkMultiSig (env : Env) (verify : Bool) (m : Machine) : Outcome :=
  match m.stack with
  | [] => m.fail .invalidStackOperation
  | keyCount :: belowCount =>
    match readCount env Limit.keys keyCount with
    | .error stop => m.halt stop
    | .ok none => m.fail .pubkeyCount
    | .ok (some k) =>
      let m := { m with opCount := m.opCount + k }
      if Limit.operations < m.opCount then m.fail .opCount
      else
        match belowCount.drop k with
        | [] => m.fail .invalidStackOperation
        | sigCount :: belowKeys =>
          match readCount env k sigCount with
          | .error stop => m.halt stop
          | .ok none => m.fail .sigCount
          | .ok (some s) =>
            if belowKeys.length < s + 1 then m.fail .invalidStackOperation
            else
              let sigs := belowKeys.take s
              match m.signedCode env sigs with
              | .error fault => m.halt (.ofFault fault)
              | .ok code =>
                match matchKeys env code sigs (belowCount.take k) m.journal with
                | (.error stop, journal) => ({ m with journal } : Machine).halt stop
                | (.ok success, journal) =>
                  settleMultiSig env verify (k + s + 2) sigs success { m with journal }

/-! ### Steps and runs -/

/-- Carries out an operation. -/
def perform (env : Env) (op : Operation) (m : Machine) : Outcome :=
  match op with
  | .number n => .running (m.push (ScriptNum.encode n))
  | .nop => .running m
  | .reservedNop => m.reserved env
  | .checkLockTime =>
    if env.flags.has .checkLockTimeVerify then m.checkLockTime env else m.reserved env
  | .checkSequence =>
    if env.flags.has .checkSequenceVerify then m.checkSequence env else m.reserved env
  | .checkColdStake =>
    if env.flags.has .checkColdStakeVerify then m.checkColdStake env else m.reserved env
  | .openBranch inverted => m.openBranch env inverted
  | .switchBranch => m.switchBranch
  | .closeBranch => m.closeBranch
  | .verify =>
    match m.stack with
    | [] => m.fail .invalidStackOperation
    | top :: rest => if truthy top then .running { m with stack := rest } else m.fail .verify
  | .abort => m.fail .opReturn
  | .toAlt =>
    match m.stack with
    | [] => m.fail .invalidStackOperation
    | top :: rest => .running { m with stack := rest, alt := top :: m.alt }
  | .fromAlt =>
    match m.alt with
    | [] => m.fail .invalidAltStackOperation
    | top :: rest => .running { m with stack := top :: m.stack, alt := rest }
  | .arrange a =>
    match a.apply m.stack with
    | none => m.fail .invalidStackOperation
    | some stack => .running { m with stack }
  | .fetch move => m.fetch env move
  | .equal verify =>
    match m.stack with
    | b :: a :: rest =>
      ({ m with stack := rest } : Machine).conclude (whenVerified verify .equalVerify) (a == b)
    | _ => m.fail .invalidStackOperation
  | .unary f => m.unary env f
  | .binary f verify => m.binary env f verify
  | .within => m.within env
  | .hash h =>
    match m.stack with
    | [] => m.fail .invalidStackOperation
    | top :: rest => .running { m with stack := h.apply top :: rest }
  | .codeSeparator => .running { m with codeStart := m.position }
  | .checkSig verify => m.checkSig env verify
  | .checkMultiSig verify => m.checkMultiSig env verify
  | .forbidden | .invalid => m.fail .badOpCode

/-- Carries out an instruction whose opcode is allowed: a push or an operation, unless the
branch it stands in is skipped. -/
def execute (env : Env) (i : Instruction) (m : Machine) : Outcome :=
  match i.data with
  | some data =>
    if m.executing then
      if env.flags.has .minimalData && !Script.isMinimalPush i.opcode data then m.fail .minimalData
      else .running (m.push data)
    else .running m
  | none =>
    let op := Operation.ofOpcode i.opcode
    if m.executing || op.runsWhenSkipped then m.perform env op else .running m

/-- Both stacks together hold no more items than allowed. -/
def checkStackSize : Outcome → Outcome
  | .running m =>
    if Limit.stackItems < m.stack.length + m.alt.length then m.fail .stackSize else .running m
  | halted => halted

/-- Counts an instruction that is not a push. -/
def count (i : Instruction) (m : Machine) : Machine :=
  { m with
    position := m.position + i.bytes.length
    opCount := if i.isPush then m.opCount else m.opCount + 1 }

/-- One instruction: the checks that do not depend on the branch, then the rest. -/
def step (env : Env) (i : Instruction) (m : Machine) : Outcome :=
  let counted := m.count i
  if i.data.any fun data => Limit.pushSize < data.length then
    counted.fail .pushSize
  else if !i.isPush && Limit.operations < counted.opCount then counted.fail .opCount
  else if Opcode.isDisabled i.opcode then counted.fail .disabledOpCode
  else checkStackSize (counted.execute env i)

/-- One instruction after another. -/
def run (env : Env) : List Instruction → Machine → Outcome
  | [], m => .running m
  | i :: is, m =>
    match m.step env i with
    | .running m => run env is m
    | .halted stop m => .halted stop m

/-- What must hold when all instructions are used up: there is no tail that is no
instruction, and every conditional is closed. -/
def finish (tail : Bytes) : Outcome → Outcome
  | .running m =>
    if !tail.isEmpty then m.fail .badOpCode
    else if !m.conditions.isEmpty then m.fail .unbalancedConditional
    else .running m
  | halted => halted

end Machine

/-- Evaluates a script from a stack and a journal. -/
def Script.evaluate (flags : Flags) (checker : Checker) (version : SigVersion) (script : Bytes)
    (stack : Stack Bytes) (journal : Journal) : Outcome :=
  let start : Machine := { stack, journal }
  if Limit.scriptSize < script.length then start.fail .scriptSize
  else
    let env : Env := { flags, checker, version, script }
    Machine.finish (Script.tail script) (Machine.run env (Script.instructions script) start)

end BlockRules
