import BlockRules.Script.Machine
import BlockRules.Script.Template

/-!
# Verifying an input

An input is good if its own script and then the script of the output it spends, run on
one stack, leave something true on top. Later rules added two more rounds:

* **script hashes** — an output that asks for a script by its hash: the last item that the
  input pushed is that script, and is run on the items below it;
* **witness programs** — an output, or a script behind a hash, that is a witness program:
  the witness is checked against it (`Script.checkWitnessProgram`), and the input's script
  holds nothing else.

A `Run` is what a round leaves: the main stack, the reason why it stopped if it did, and
the journal. Rounds are chained with `Run.andThen`. In the rounds for a script behind a
hash and for a witness a stack of their own is used, and the main stack is replaced only
when they end well.
-/

namespace BlockRules

/-- What an evaluation leaves. -/
structure Run where
  stack : Stack Bytes
  stop : Option Stop := none
  journal : Journal
  deriving DecidableEq, Repr

namespace Run

/-- Goes on with a run that has not stopped. -/
def andThen (r : Run) (next : Run → Run) : Run :=
  match r.stop with
  | some _ => r
  | none => next r

/-- Stops a run because of a broken rule. -/
def fail (r : Run) (e : ScriptError) : Run := { r with stop := some (.failed e) }

/-- Stops a run unless a condition holds. -/
def require (r : Run) (holds : Bool) (e : ScriptError) : Run := if holds then r else r.fail e

/-- What is left of the run of a machine. -/
def ofOutcome : Outcome → Run
  | .running m => { stack := m.stack, journal := m.journal }
  | .halted stop m => { stack := m.stack, stop := some stop, journal := m.journal }

end Run

/-- There is an item, and the top one is true. -/
def endsTrue (stack : Stack Bytes) : Bool :=
  match stack with
  | [] => false
  | top :: _ => truthy top

/-- What a verification is held to and asks. -/
structure Judge where
  flags : Flags
  checker : Checker

namespace Script

/-- The stack that stands for a witness that was checked on its own. -/
def settledStack : Stack Bytes := [[1]]

/-- Runs a script on the stack of an earlier run. -/
def resume (judge : Judge) (version : SigVersion) (script : Bytes) (r : Run) : Run :=
  .ofOutcome (evaluate judge.flags judge.checker version script r.stack r.journal)

/-- Runs a witness script on the items of a witness; exactly one item is left, and true. -/
def runWitness (judge : Judge) (script : Bytes) (witness : List Bytes) (journal : Journal) : Run :=
  let start : Run := { stack := witness.reverse, journal }
  if witness.any fun item => Limit.pushSize < item.length then start.fail .pushSize
  else
    (resume judge .witnessV0 script start).andThen fun r =>
      r.require (r.stack.length == 1 && endsTrue r.stack) .evalFalse

/-- Checks a witness, bottom item first, against a witness program. Programs of unknown
versions are met by anything. -/
def checkWitnessProgram (judge : Judge) (witness : List Bytes) (version : Nat) (program : Bytes)
    (journal : Journal) : Run :=
  let start : Run := { stack := [], journal }
  if version ≠ 0 then
    if judge.flags.has .discourageUpgradableWitnessProgram then
      start.fail .discourageUpgradableWitnessProgram
    else start
  else if program.length = 32 then
    match witness.getLast? with
    | none => start.fail .witnessProgramEmpty
    | some script =>
      if sha256 script ≠ program then start.fail .witnessProgramMismatch
      else runWitness judge script witness.dropLast journal
  else if program.length = 20 then
    if witness.length ≠ 2 then start.fail .witnessProgramMismatch
    else runWitness judge (payToKeyHash (Wide.ofBytesLE program)) witness journal
  else start.fail .witnessProgramWrongLength

/-- If a script is a witness program and witnesses are looked at, checks that the input's
script is as expected and then the witness. -/
def checkWitness (judge : Judge) (script : Bytes) (witness : List Bytes) (untouched : Bool)
    (malleated : ScriptError) (r : Run) : Run :=
  if judge.flags.has .witness then
    match witnessProgram? script with
    | none => r
    | some (version, program) =>
      if !untouched then r.fail malleated
      else
        let checked := checkWitnessProgram judge witness version program r.journal
        { stack := if checked.stop.isNone then settledStack else r.stack
          stop := checked.stop
          journal := checked.journal }
  else r

/-- The round for a script behind a hash: `r` is the run so far and `pushed` the stack that
the input's script left. -/
def checkRedeemScript (judge : Judge) (scriptSig : Bytes) (witness : List Bytes)
    (pushed : Stack Bytes)
    (r : Run) : Run :=
  if !isPushOnly scriptSig then r.fail .sigPushOnly
  else
    match pushed with
    | [] => r.fail .evalFalse
    | redeem :: below =>
      let inner :=
        ((resume judge .legacy redeem { stack := below, journal := r.journal }).andThen fun r =>
          r.require (endsTrue r.stack) .evalFalse).andThen
        (checkWitness judge redeem witness (scriptSig == pushData redeem) .witnessMalleatedP2SH)
      { inner with stack := if inner.stop.isNone then inner.stack else r.stack }

/-- The output asks for a script by its hash, and flags ask to look at it. -/
def looksBehindHash (flags : Flags) (scriptPubkey : Bytes) : Bool :=
  flags.has .p2sh && isPayToScriptHash scriptPubkey

/-- A witness is called for by the output's script or by the script behind its hash. -/
def callsForWitness (flags : Flags) (scriptPubkey : Bytes) (pushed : Stack Bytes) : Bool :=
  flags.has .witness
    && ((witnessProgram? scriptPubkey).isSome
      || looksBehindHash flags scriptPubkey && ((pushed.head?.bind witnessProgram?).isSome))

/-- Verifies an input: its script, the script of the output it spends, and its witness,
bottom item first. -/
def verify (judge : Judge) (scriptSig scriptPubkey : Bytes) (witness : List Bytes)
    (journal : Journal) : Run :=
  let flags := judge.flags
  let start : Run := { stack := [], journal }
  if flags.has .sigPushOnly && !isPushOnly scriptSig then start.fail .sigPushOnly
  else
    (resume judge .legacy scriptSig start).andThen fun signed =>
    (resume judge .legacy scriptPubkey signed).andThen fun r =>
    (r.require (endsTrue r.stack) .evalFalse).andThen fun r =>
    (checkWitness judge scriptPubkey witness scriptSig.isEmpty .witnessMalleated r).andThen fun r =>
    (if looksBehindHash flags scriptPubkey then
        checkRedeemScript judge scriptSig witness signed.stack r
      else r).andThen fun r =>
    (r.require (!(flags.has .cleanStack && flags.has .p2sh && flags.has .witness)
        || r.stack.length == 1) .cleanStack).andThen fun r =>
    r.require (!flags.has .witness || callsForWitness flags scriptPubkey signed.stack
        || witness.isEmpty) .witnessUnexpected

end Script

end BlockRules
