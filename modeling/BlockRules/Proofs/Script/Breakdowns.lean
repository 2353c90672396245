import Mathlib
import BlockRules.Proofs.Script.Addresses
import BlockRules.Proofs.Script.Indices
import BlockRules.Proofs.Script.Rounds

/-!
# Nothing breaks down

A context has a message for evaluations that break down. This module puts together why it is
never needed as long as the checker answers.

* **verifications by address** — `Verifier` programs change the main stack and the journal;
  the rounds for a witness and for a script behind a hash run on a stack of their own. The
  templates of scripts are recognized by bytes at offsets. `Verifier.verify_eq` says that this
  is the verification, so that no access of a verification is out of range;
* **contexts** — neither entry point leaves a message, and there is one reason for the verdict
  that no rule accounts for: a number that was rejected (`Context.evalScript_of_calm`,
  `Context.verifyScript_of_calm`).
-/

namespace BlockRules

/-- A program that changes a stack and a journal and may stop. -/
abbrev Verifier := EStateM Stop (Stack Bytes × Journal)

namespace Script

/-! ## Templates by offset -/

/-- The script has the shape of `payToScriptHash`, by offset. -/
def isPayToScriptHashAt (script : Bytes) : Except Fault Bool := do
  if script.length ≠ 23 then return false
  if (← Curve.byteAt script 0) ≠ Opcode.hash160 then return false
  if (← Curve.byteAt script 1) ≠ 0x14 then return false
  return (← Curve.byteAt script 22) == Opcode.equal

/-- The version and the program of a witness program, by offset. -/
def witnessProgramAt (script : Bytes) : Except Fault (Option (Nat × Bytes)) := do
  if script.length < 4 ∨ 42 < script.length then return none
  match Opcode.smallInt? (← Curve.byteAt script 0) with
  | none => return none
  | some version =>
    if (← Curve.byteAt script 1).toNat + 2 = script.length then
      return some (version, ← script.slice 2 script.length)
    else return none

/-- Recognising the template by its offsets reads no byte outside the script. -/
theorem isPayToScriptHashAt_eq (script : Bytes) :
    isPayToScriptHashAt script = .ok (isPayToScriptHash script) := by
  rw [isPayToScriptHashAt, isPayToScriptHash]
  by_cases size : script.length = 23
  · rw [if_neg (not_not.2 size), Curve.byteAt_of_lt (by omega), Curve.byteAt_of_lt (by omega),
      Curve.byteAt_of_lt (by omega), List.getElem?_eq_getElem (by omega),
      List.getElem?_eq_getElem (by omega), List.getElem?_eq_getElem (by omega), beq_iff_eq.2 size]
    simp only [bind, Except.bind, ne_eq, Option.some_beq_some]
    by_cases mark : script[0] = Opcode.hash160
    · by_cases width : script[1] = 0x14
      · rw [if_neg (not_not.2 mark), if_neg (not_not.2 width), beq_iff_eq.2 mark,
          beq_iff_eq.2 width]
        rfl
      · rw [if_neg (not_not.2 mark), if_pos width, beq_eq_false_iff_ne.2 width, Bool.and_false]
        rfl
    · rw [if_pos mark, beq_eq_false_iff_ne.2 mark, Bool.and_false]
      rfl
  · rw [if_pos size, beq_eq_false_iff_ne.2 size]
    rfl

theorem witnessProgramAt_eq (script : Bytes) :
    witnessProgramAt script = .ok (witnessProgram? script) := by
  rw [witnessProgramAt]
  -- by address, the length is checked first; it is what keeps the addresses inside
  by_cases size : script.length < 4 ∨ 42 < script.length
  · rw [if_pos size]
    rcases script with _ | ⟨version, _ | ⟨width, program⟩⟩
    · rfl
    · rfl
    · simp only [List.length_cons] at size
      rw [witnessProgram?, if_neg (by omega)]
      rfl
  · rw [if_neg size]
    rcases script with _ | ⟨version, _ | ⟨width, program⟩⟩
    · simp at size
    · simp at size
    · have whole :
        Bytes.slice (version :: width :: program) 2 (version :: width :: program).length =
          .ok program := Bytes.slice_to_end (by simp)
      simp only [List.length_cons] at size whole
      simp only [Curve.byteAt, List.getElem?_cons_zero, List.getElem?_cons_succ, witnessProgram?,
        List.length_cons, bind, Except.bind]
      rcases Opcode.smallInt? version with _ | v <;> dsimp only
      · rw [Option.map_none, ite_self]
        rfl
      · by_cases fits : width.toNat = program.length
        · rw [if_pos (by omega), if_pos (by omega)]
          simp only [whole]
          rfl
        · rw [if_neg (by omega), if_neg (by omega)]
          rfl

end Script

/-- A run as the result of a program that comes to a value. -/
def Run.result {α : Type} (a : α) (r : Run) : EStateM.Result Stop (Stack Bytes × Journal) α :=
  match r.stop with
  | none => .ok a (r.stack, r.journal)
  | some stop => .error stop (r.stack, r.journal)

namespace Verifier

open Procedure (fail failWhen orCrash orFault)

/-! ## Verifications by address -/

/-- An evaluation on the main stack. -/
def resume (judge : Judge) (version : SigVersion) (script : Bytes) : Verifier Unit :=
  fun (stack, journal) =>
    match Procedure.evaluate judge.flags judge.checker version script stack journal with
    | .running m => .ok () (m.stack, m.journal)
    | .halted stop m => .error stop (m.stack, m.journal)

/-- Runs a program on a stack of its own and hands out what it leaves there. The main stack
stays as it is. -/
def aside {α : Type} (stack : Stack Bytes) (x : Verifier α) : Verifier (α × Stack Bytes) :=
  fun (main, journal) =>
    match x (stack, journal) with
    | .ok a (stack, journal) => .ok (a, stack) (main, journal)
    | .error stop (_, journal) => .error stop (main, journal)

/-- Runs a program on a stack of its own, which then takes the place of the main one. -/
def instead {α : Type} (stack : Stack Bytes) (x : Verifier α) : Verifier α := do
  let (a, left) ← aside stack x
  modify fun (_, journal) => (left, journal)
  return a

/-- Fails unless the top item is true. -/
def needTrueTop : Verifier Unit := do
  failWhen (!truthy (← orCrash (Stack.top? (← get).1 (-1)))) .evalFalse

/-- Fails unless there is an item and the top one is true. -/
def needTrue : Verifier Unit := do
  failWhen ((← get).1.isEmpty) .evalFalse
  needTrueTop

/-- Fails unless there is exactly one item and it is true. -/
def needOneTrue : Verifier Unit := do
  failWhen ((← get).1.length ≠ 1) .evalFalse
  needTrueTop

/-- Runs a witness script on the items of a witness. -/
def runWitness (judge : Judge) (script : Bytes) (witness : List Bytes) : Verifier Unit := do
  failWhen (witness.any fun item => Limit.pushSize < item.length) .pushSize
  discard <| aside witness.reverse do
    resume judge .witnessV0 script
    needOneTrue

/-- Checks a witness, bottom item first, against a witness program. -/
def checkWitnessProgram (judge : Judge) (witness : List Bytes) (version : Nat) (program : Bytes) :
    Verifier Unit := do
  if version ≠ 0 then
    failWhen
      (judge.flags.has .discourageUpgradableWitnessProgram) .discourageUpgradableWitnessProgram
  else if program.length = 32 then
    match witness.getLast? with
    | none => fail .witnessProgramEmpty
    | some script =>
      failWhen (sha256 script ≠ program) .witnessProgramMismatch
      runWitness judge script witness.dropLast
  else if program.length = 20 then
    failWhen (witness.length ≠ 2) .witnessProgramMismatch
    runWitness judge (Script.payToKeyHash (Wide.ofBytesLE program)) witness
  else fail .witnessProgramWrongLength

/-- Checks the witness if a script calls for one, and tells whether it does. -/
def checkWitness (judge : Judge) (script : Bytes) (witness : List Bytes) (untouched : Bool)
    (malleated : ScriptError) : Verifier Bool := do
  if judge.flags.has .witness then
    match ← orFault (Script.witnessProgramAt script) with
    | none => return false
    | some (version, program) =>
      failWhen (!untouched) malleated
      checkWitnessProgram judge witness version program
      modify fun (_, journal) => (Script.settledStack, journal)
      return true
  else return false

/-- Runs a script behind a hash, and tells whether it calls for a witness. -/
def runRedeemScript (judge : Judge) (scriptSig : Bytes) (witness : List Bytes) (redeem : Bytes) :
    Verifier Bool := do
  resume judge .legacy redeem
  needTrue
  checkWitness judge redeem witness (scriptSig == Script.pushData redeem) .witnessMalleatedP2SH

/-- The round for a script behind a hash, which is on top of what the input's script left. -/
def checkRedeemScript (judge : Judge) (scriptSig : Bytes) (witness : List Bytes)
    (pushed : Stack Bytes) : Verifier Bool := do
  failWhen (!Script.isPushOnly scriptSig) .sigPushOnly
  match Stack.pop? pushed with
  | .error _ => fail .evalFalse
  | .ok (redeem, below) => instead below (runRedeemScript judge scriptSig witness redeem)

/-- The round for a script behind a hash, if the output asks for it. -/
def lookBehindHash (judge : Judge) (scriptSig scriptPubkey : Bytes) (witness : List Bytes)
    (pushed : Stack Bytes) : Verifier Bool := do
  if judge.flags.has .p2sh then
    if ← orFault (Script.isPayToScriptHashAt scriptPubkey) then
      checkRedeemScript judge scriptSig witness pushed
    else return false
  else return false

/-- What is checked at the end: one item is left, and a witness was called for. -/
def conclude (judge : Judge) (witness : List Bytes) (called : Bool) : Verifier Unit := do
  let flags := judge.flags
  failWhen (flags.has .cleanStack && flags.has .p2sh && flags.has .witness &&
    (← get).1.length != 1)
    .cleanStack
  failWhen (flags.has .witness && !called && !witness.isEmpty) .witnessUnexpected

/-- A verification with every access by address. -/
def verify (judge : Judge) (scriptSig scriptPubkey : Bytes) (witness : List Bytes) :
    Verifier Unit := do
  failWhen (judge.flags.has .sigPushOnly && !Script.isPushOnly scriptSig) .sigPushOnly
  resume judge .legacy scriptSig
  let (pushed, _) ← get
  resume judge .legacy scriptPubkey
  needTrue
  let called ← checkWitness judge scriptPubkey witness scriptSig.isEmpty .witnessMalleated
  let calledBehind ← lookBehindHash judge scriptSig scriptPubkey witness pushed
  conclude judge witness (called || calledBehind)

/-! ## Agreement -/

variable {judge : Judge} {α β : Type} {r : Run}

/-- Two programs in a row are two runs in a row. -/
theorem bind_of_result {x : Verifier α} {f : α → Verifier β} {a : α} {b : β} {next : Run → Run}
    {start : Stack Bytes × Journal} (first : x start = r.result a)
    (then_ : r.stop = none → f a (r.stack, r.journal) = (next r).result b) :
    (x >>= f) start = (r.andThen next).result b := by
  simp only [bind, EStateM.bind, first, Run.andThen]
  rcases stopped : r.stop with _ | stop
  · have ok : r.result a = .ok a (r.stack, r.journal) := by simp only [Run.result, stopped]
    simp only [ok]
    exact then_ stopped
  · simp only [Run.result, stopped]

theorem get_bind {f : Stack Bytes × Journal → Verifier β} {start : Stack Bytes × Journal} :
    (get >>= f) start = f start start := rfl

/-- A check is a requirement. -/
theorem failWhen_eq {c : Prop} [Decidable c] {holds : Bool} {e : ScriptError}
    (running : r.stop = none) (same : c ↔ holds = false) :
    (failWhen c e : Verifier Unit) (r.stack, r.journal) = (r.require holds e).result () := by
  rw [failWhen, Run.require]
  cases holds with
  | false =>
    rw [if_pos (same.2 rfl)]
    rfl
  | true =>
    rw [if_neg fun bad => Bool.noConfusion (same.1 bad), if_pos rfl, Run.result, running]
    rfl

/-- One script of a verification with checked accesses is that script without them. -/
theorem resume_eq {version : SigVersion} {script : Bytes} :
    resume judge version script (r.stack, r.journal) =
      (Script.resume judge version script r).result () := by
  rw [resume, Script.resume, Procedure.evaluate_eq]
  rcases Script.evaluate judge.flags judge.checker version script r.stack r.journal with
    m | ⟨stop, m⟩ <;> rfl

theorem needTrueTop_eq {top : Bytes} {rest : Stack Bytes} {journal : Journal} :
    needTrueTop (top :: rest, journal) =
      (({ stack := top :: rest, journal } : Run).require (truthy top) .evalFalse).result () := by
  change (failWhen ((!truthy top) = true) .evalFalse : Verifier Unit) (top :: rest, journal) = _
  rw [failWhen, Run.require]
  cases truthy top <;> rfl

/-- There is a top item if there is one at all. -/
theorem needTrue_eq (running : r.stop = none) :
    needTrue (r.stack, r.journal) = (r.require (endsTrue r.stack) .evalFalse).result () := by
  obtain ⟨stack, stop, journal⟩ := r
  obtain rfl : stop = none := running
  rcases stack with _ | ⟨top, rest⟩
  · rfl
  · exact needTrueTop_eq

/-- A clean stack is asked for before its item is looked at. -/
theorem needOneTrue_eq (running : r.stop = none) :
    needOneTrue (r.stack, r.journal) =
      (r.require (r.stack.length == 1 && endsTrue r.stack) .evalFalse).result () := by
  obtain ⟨stack, stop, journal⟩ := r
  obtain rfl : stop = none := running
  rcases stack with _ | ⟨top, _ | ⟨second, rest⟩⟩
  · rfl
  · exact needTrueTop_eq
  · rfl

/-- A program on a stack of its own leaves the main stack as it is. -/
theorem aside_of_result {x : Verifier α} {a : α} {stack main : Stack Bytes} {journal : Journal}
    (inner : x (stack, journal) = r.result a) :
    aside stack x (main, journal) = ({ r with stack := main } : Run).result (a, r.stack) := by
  rw [aside, inner, Run.result, Run.result]
  rcases r.stop with _ | stop <;> rfl

/-- The main stack is replaced only if the program does not stop. -/
theorem instead_of_result {x : Verifier α} {a : α} {stack main : Stack Bytes} {journal : Journal}
    (inner : x (stack, journal) = r.result a) :
    instead stack x (main, journal) =
      ({ r with stack := if r.stop.isNone then r.stack else main } : Run).result a := by
  have kept := @aside_of_result _ _ _ _ _ main _ inner
  simp only [instead, bind, EStateM.bind, kept, Run.result]
  rcases r.stop with _ | stop <;> rfl

/-- The value of a program can be forgotten. -/
theorem discard_of_result {x : Verifier α} {a : α} {start : Stack Bytes × Journal}
    (h : x start = r.result a) : (discard x) start = r.result () := by
  have mapped : (discard x) start = (x >>= fun _ => pure ()) start := rfl
  rw [mapped]
  simp only [bind, EStateM.bind, h, Run.result]
  rcases r.stop with _ | stop <;> rfl

/-- A check that comes first fails, or leaves the rest to do. -/
theorem failWhen_bind {c : Prop} [Decidable c] {e : ScriptError} {f : Unit → Verifier α}
    {start : Stack Bytes × Journal} :
    (failWhen c e >>= f) start = if c then .error (.failed e) start else f () start := by
  rw [failWhen]
  split <;> rfl

/-- A witness script runs on a stack of its own; the main stack is put back. -/
theorem runWitness_eq {script : Bytes} {witness : List Bytes} {main : Stack Bytes}
    {journal : Journal} :
    runWitness judge script witness (main, journal) =
      ({ Script.runWitness judge script witness journal with stack := main } : Run).result () := by
  rw [runWitness, failWhen_bind, Script.runWitness]
  split
  next => rfl
  next =>
    have ran :
      (resume judge .witnessV0 script >>= fun _ => needOneTrue) (witness.reverse, journal) =
        ((Script.resume judge .witnessV0 script { stack := witness.reverse, journal }).andThen
          fun r =>
          r.require (r.stack.length == 1 && endsTrue r.stack) .evalFalse).result () :=
      bind_of_result (@resume_eq judge { stack := witness.reverse, journal } .witnessV0 script)
        needOneTrue_eq
    exact discard_of_result (aside_of_result ran)

/-- The witness is checked on a stack of its own. -/
theorem checkWitnessProgram_eq {witness : List Bytes} {version : Nat} {program : Bytes}
    {main : Stack Bytes} {journal : Journal} :
    checkWitnessProgram judge witness version program (main, journal) =
      ({ Script.checkWitnessProgram judge witness version program journal with stack := main } :
        Run).result () := by
  rw [checkWitnessProgram, Script.checkWitnessProgram]
  split
  next =>
    rw [failWhen]
    split <;> rfl
  next =>
  split
  next =>
    rcases witness.getLast? with _ | script
    · rfl
    · refine failWhen_bind.trans ?_
      dsimp only
      split
      next => rfl
      next => exact runWitness_eq
  next =>
  split
  next =>
    refine failWhen_bind.trans ?_
    split
    next => rfl
    next => exact runWitness_eq
  next => rfl

/-- The script calls for a witness, if witnesses are looked at. -/
theorem checkWitness_eq {script : Bytes} {witness : List Bytes} {untouched : Bool}
    {malleated : ScriptError} (running : r.stop = none) :
    checkWitness judge script witness untouched malleated (r.stack, r.journal) =
      (Script.checkWitness judge script witness untouched malleated r).result
        (judge.flags.has .witness && (Script.witnessProgram? script).isSome) := by
  have untaken : ∀ b : Bool, (pure b : Verifier Bool) (r.stack, r.journal) = r.result b := by
    intro b
    rw [Run.result, running]
    rfl
  rw [checkWitness, Script.checkWitness, Script.witnessProgramAt_eq]
  cases judge.flags.has .witness with
  | false => exact untaken false
  | true =>
    rw [if_pos rfl, if_pos rfl, Bool.true_and]
    rcases Script.witnessProgram? script with _ | ⟨version, program⟩
    · exact untaken false
    · refine failWhen_bind.trans ?_
      dsimp only
      split
      next => rfl
      next =>
        have checked := @checkWitnessProgram_eq judge witness version program r.stack r.journal
        simp only [bind, EStateM.bind, checked]
        rcases (Script.checkWitnessProgram judge witness version program r.journal).stop with
          _ | stop <;> simp only [Run.result] <;> rfl

theorem runRedeemScript_eq {scriptSig : Bytes} {witness : List Bytes} {redeem : Bytes} :
    runRedeemScript judge scriptSig witness redeem (r.stack, r.journal) =
      (((Script.resume judge .legacy redeem r).andThen fun r =>
        r.require (endsTrue r.stack) .evalFalse).andThen
          (Script.checkWitness judge redeem witness (scriptSig == Script.pushData redeem)
            .witnessMalleatedP2SH)).result
        (judge.flags.has .witness && (Script.witnessProgram? redeem).isSome) := by
  rw [Run.andThen_assoc]
  refine bind_of_result resume_eq fun running => ?_
  exact bind_of_result (needTrue_eq running) fun running => checkWitness_eq running

/-- The script behind a hash runs on a stack of its own, which takes the place of the main one
if everything holds. -/
theorem checkRedeemScript_eq {scriptSig : Bytes} {witness : List Bytes} {pushed : Stack Bytes} :
    checkRedeemScript judge scriptSig witness pushed (r.stack, r.journal) =
      (Script.checkRedeemScript judge scriptSig witness pushed r).result
        (judge.flags.has .witness && (pushed.head?.bind Script.witnessProgram?).isSome) := by
  refine failWhen_bind.trans ?_
  simp only [Script.checkRedeemScript]
  split
  next => rfl
  next =>
  rcases pushed with _ | ⟨redeem, below⟩
  · rfl
  exact instead_of_result
    (@runRedeemScript_eq judge { stack := below, journal := r.journal } scriptSig witness redeem)

/-- The output asks for a script by its hash, if flags ask to look at it. -/
theorem lookBehindHash_eq {scriptSig scriptPubkey : Bytes} {witness : List Bytes}
    {pushed : Stack Bytes} (running : r.stop = none) :
    lookBehindHash judge scriptSig scriptPubkey witness pushed (r.stack, r.journal) =
      (if Script.looksBehindHash judge.flags scriptPubkey then
          Script.checkRedeemScript judge scriptSig witness pushed r
        else r).result
        (judge.flags.has .witness && (Script.looksBehindHash judge.flags scriptPubkey
          && (pushed.head?.bind Script.witnessProgram?).isSome)) := by
  have untaken : (pure false : Verifier Bool) (r.stack, r.journal) = r.result false := by
    rw [Run.result, running]
    rfl
  rw [lookBehindHash, Script.looksBehindHash, Script.isPayToScriptHashAt_eq]
  cases judge.flags.has .p2sh with
  | false =>
    rw [if_neg Bool.false_ne_true, Bool.false_and, Bool.false_and, Bool.and_false]
    exact untaken
  | true =>
    rw [if_pos rfl, Bool.true_and]
    cases Script.isPayToScriptHash scriptPubkey with
    | false =>
      rw [Bool.false_and, Bool.and_false]
      exact untaken
    | true => exact checkRedeemScript_eq

/-- What is checked at the end is required at the end. -/
theorem conclude_eq {witness : List Bytes} {called : Bool} (running : r.stop = none) :
    conclude judge witness called (r.stack, r.journal) =
      ((r.require
        (!(judge.flags.has .cleanStack && judge.flags.has .p2sh && judge.flags.has .witness)
          || r.stack.length == 1) .cleanStack).andThen fun r =>
        r.require (!judge.flags.has .witness || called || witness.isEmpty)
          .witnessUnexpected).result () := by
  refine get_bind.trans
    (bind_of_result (failWhen_eq running ?_) fun running => failWhen_eq running ?_)
  · simp
  · simp

/-- **No access of a verification is out of range.** -/
theorem verify_eq {scriptSig scriptPubkey : Bytes} {witness : List Bytes} {journal : Journal} :
    verify judge scriptSig scriptPubkey witness ([], journal) =
      (Script.verify judge scriptSig scriptPubkey witness journal).result () := by
  refine failWhen_bind.trans ?_
  simp only [Script.verify]
  split
  next => rfl
  next =>
  refine bind_of_result (@resume_eq judge { stack := [], journal } .legacy scriptSig) fun _ => ?_
  refine get_bind.trans (bind_of_result resume_eq fun running => ?_)
  refine bind_of_result (needTrue_eq running) fun running => ?_
  refine bind_of_result (checkWitness_eq running) fun running => ?_
  refine bind_of_result (lookBehindHash_eq running) fun running => ?_
  refine (conclude_eq running).trans ?_
  -- the verification asks once whether witnesses are looked at, the rounds each for themselves
  rw [← Bool.and_or_distrib_left]
  rfl

end Verifier

namespace Context

/-! ## Contexts -/

variable {checker : Checker}

/-- After the evaluation of a script no message is left, and the verdict that no rule accounts
for stands for a rejected number. -/
theorem evalScript_of_calm (calm : checker.IsCalm) (ctx : Context) (version : SigVersion)
    (script : Bytes) (journal : Journal) :
    (ctx.evalScript checker version script journal).1.unexpected = none ∧
      ((ctx.evalScript checker version script journal).1.error = .unknownError ↔
        Script.RejectsNumber ctx.flags checker version script ctx.stack journal) := by
  have explained := @Script.resume_isExplainedBy ⟨ctx.flags, checker⟩ version script
    { stack := ctx.stack, journal }
  have after := ctx.record_of_calm calm explained
  simp only [List.mem_singleton, exists_eq_left] at after
  exact after

/-- The same after a verification, where the number may be rejected in any of its rounds. -/
theorem verifyScript_of_calm (calm : checker.IsCalm) (ctx : Context)
    (scriptSig scriptPubkey : Bytes)
    (witness : List Bytes) (journal : Journal) :
    (ctx.verifyScript checker scriptSig scriptPubkey witness journal).1.unexpected = none ∧
      ((ctx.verifyScript checker scriptSig scriptPubkey witness journal).1.error = .unknownError ↔
        ∃ round ∈ Script.rounds ⟨ctx.flags, checker⟩ scriptSig scriptPubkey witness journal,
          round.Rejects ⟨ctx.flags, checker⟩) :=
  ctx.record_of_calm calm Script.verify_isExplainedBy

/-- **Nothing breaks down.** With a checker that always answers, no evaluation and no
verification leaves a message, and `unknownError` says that a number was rejected. Both are what
they are with every access by address, where each one that is out of range would be a breakdown.
The checker of a transaction always answers: it is the one that looks up inputs and outputs by
index. -/
theorem nothing_breaks_down (calm : checker.IsCalm) :
    (∀ (ctx : Context) (version : SigVersion) (script : Bytes) (journal : Journal),
      (ctx.evalScript checker version script journal).1.unexpected = none ∧
        ((ctx.evalScript checker version script journal).1.error = .unknownError ↔
          Script.RejectsNumber ctx.flags checker version script ctx.stack journal) ∧
        Procedure.evaluate ctx.flags checker version script ctx.stack journal =
          Script.evaluate ctx.flags checker version script ctx.stack journal) ∧
    (∀ (ctx : Context) (scriptSig scriptPubkey : Bytes) (witness : List Bytes)
      (journal : Journal),
      (ctx.verifyScript checker scriptSig scriptPubkey witness journal).1.unexpected = none ∧
        ((ctx.verifyScript checker scriptSig scriptPubkey witness journal).1.error =
            .unknownError ↔
          ∃ round ∈ Script.rounds ⟨ctx.flags, checker⟩ scriptSig scriptPubkey witness journal,
            round.Rejects ⟨ctx.flags, checker⟩) ∧
        Verifier.verify ⟨ctx.flags, checker⟩ scriptSig scriptPubkey witness ([], journal) =
          (Script.verify ⟨ctx.flags, checker⟩ scriptSig scriptPubkey witness journal).result ()) ∧
    ∀ c : TransactionChecker, c.byIndex = c.toChecker ∧ c.toChecker.IsCalm := by
  refine ⟨?_, ?_, ?_⟩
  · intro ctx version script journal
    obtain ⟨quiet, verdict⟩ := evalScript_of_calm calm ctx version script journal
    exact ⟨quiet, verdict, Procedure.evaluate_eq ..⟩
  · intro ctx scriptSig scriptPubkey witness journal
    obtain ⟨quiet, verdict⟩ :=
      verifyScript_of_calm calm ctx scriptSig scriptPubkey witness journal
    exact ⟨quiet, verdict, Verifier.verify_eq⟩
  · intro c
    exact ⟨c.byIndex_eq, c.toChecker_isCalm⟩

/-- The checker of a transaction without inputs, for an input that does not exist. -/
def beyondInputs : TransactionChecker where
  transaction := { version := 1, inputs := [], outputs := [], lockTime := 0 }
  index := 7
  amount := 0

/-- A number of five bytes cannot be counted up: there is no message, but a rejected number. -/
theorem five_bytes_rejected :
    (({} : Context).evalScript beyondInputs.toChecker .legacy
        [5, 0, 0, 0, 0, 1, 0x8b]).1.unexpected = none ∧
      Script.RejectsNumber .standard beyondInputs.toChecker .legacy
        [5, 0, 0, 0, 0, 1, 0x8b] [] {} := by
  have calm : beyondInputs.toChecker.IsCalm := beyondInputs.toChecker_isCalm
  have verdict : (({} : Context).evalScript beyondInputs.toChecker .legacy
      [5, 0, 0, 0, 0, 1, 0x8b]).1.error = .unknownError := by decide +kernel
  obtain ⟨quiet, rejected, -⟩ :=
    (nothing_breaks_down calm).1 {} .legacy [5, 0, 0, 0, 0, 1, 0x8b] {}
  exact ⟨quiet, rejected.1 verdict⟩

end Context

end BlockRules
