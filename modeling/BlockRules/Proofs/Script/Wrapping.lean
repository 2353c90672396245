import Mathlib
import BlockRules.Proofs.Script.Rounds
import BlockRules.Proofs.Script.ScriptHash

/-!
# Scripts behind their hashes

An output can ask for a script by its hash instead of holding it. The input then pushes the script
behind what it pushed before. This should make no difference: whoever could spend the output
can still do so, and whoever could not fails for the same reason.

Both verifications run the same script on the same stack. What is different is on the way there
and on the way back:

* **the input** — its script has one more push, which must be read, admitted, and find room
  (`Script.resume_wrapped`);
* **the output** — its script compares hashes, and needs room for two more items
  (`Script.evaluate_committed`);
* **the stack** — a script behind a hash runs on a stack of its own, which takes the place of the
  main one only if it ends well. Runs that differ in this way are *alike* (`Run.Alike`), and
  stay alike whatever comes next.

A script behind a hash is held to what the hash costs it: `Script.Wrappable` lists the bounds.
-/

namespace BlockRules

/-! ## Runs that end alike -/

/-- Two runs end for the same reason, with the same journal, and on the same stack if they end
well. -/
structure Run.Alike (r r' : Run) : Prop where
  stop : r.stop = r'.stop
  journal : r.journal = r'.journal
  stack : r.stop = none → r.stack = r'.stack

namespace Run

variable {r r' : Run}

theorem andThen_mk {stack : Stack Bytes} {journal : Journal} {next : Run → Run} :
    Run.andThen { stack, journal } next = next { stack, journal } := rfl

theorem andThen_halted {stop : Stop} {m : Machine} {next : Run → Run} :
    (ofOutcome (.halted stop m)).andThen next = ofOutcome (.halted stop m) := rfl

theorem andThen_id : (r.andThen fun r => r) = r := by
  rw [andThen]
  split <;> rfl

theorem Alike.refl (r : Run) : r.Alike r := ⟨rfl, rfl, fun _ => rfl⟩

/-- Runs that end alike stay alike. -/
theorem Alike.andThen (alike : r.Alike r') (next : Run → Run) :
    (r.andThen next).Alike (r'.andThen next) := by
  rcases stopped : r.stop with _ | stop
  · have same : r = r' := by
      rcases r with ⟨stack, stop, journal⟩
      rcases r' with ⟨stack', stop', journal'⟩
      obtain ⟨rfl, rfl, left⟩ := alike
      obtain rfl := left stopped
      rfl
    rw [same]
    exact .refl _
  · have stopped' : r'.stop = some stop := alike.stop ▸ stopped
    simp only [Run.andThen, stopped, stopped']
    exact alike

end Run

namespace Context

/-- Runs that end alike are recorded with the same verdict. -/
theorem record_alike (ctx : Context) {r r' : Run} (alike : r.Alike r') :
    (ctx.record r).error = (ctx.record r').error ∧
      (ctx.record r).unexpected = (ctx.record r').unexpected := by
  rw [record, record, alike.stop]
  rcases r'.stop with _ | e | message <;> exact ⟨rfl, rfl⟩

end Context

/-! ## The way there -/

namespace Script

variable {judge : Judge} {scriptSig redeem : Bytes} {witness : List Bytes} {journal : Journal}

/-- A script can stand behind its hash in the place of an output's script: the input can push it on
top of what it pushes anyway, with room for the comparison. -/
structure Wrappable (judge : Judge) (scriptSig redeem : Bytes) (journal : Journal) : Prop where
  looks : judge.flags.has .p2sh = true
  pushOnly : isPushOnly scriptSig = true
  /-- if the input's script runs through, it has pushed no more items than leave room for the script
  and its hash -/
  room : ∀ m, evaluate judge.flags judge.checker .legacy scriptSig [] journal = .running m →
    m.stack.length + 2 ≤ Limit.stackItems
  size : (scriptSig ++ pushData redeem).length ≤ Limit.scriptSize
  short : redeem.length ≤ Limit.pushSize
  /-- the script is no number that must be pushed by an opcode of its own -/
  plain : judge.flags.has .minimalData = true →
    ∀ b, redeem = [b] → ¬(1 ≤ b ∧ b ≤ 16) ∧ b ≠ 0x81
  /-- the script is not itself one that asks for another one -/
  inner : isPayToScriptHash redeem = false

/-- The length of such a script can be stated in front of it. -/
theorem Wrappable.length_lt (wrappable : Wrappable judge scriptSig redeem journal) :
    redeem.length < 2 ^ 32 := lt_of_le_of_lt wrappable.short (by decide)

/-- The input's script leaves what it leaves anyway, with the script on top. -/
theorem evaluate_wrapped {m : Machine} (wrappable : Wrappable judge scriptSig redeem journal)
    (signs : evaluate judge.flags judge.checker .legacy scriptSig [] journal = .running m) :
    evaluate judge.flags judge.checker .legacy (scriptSig ++ pushData redeem) [] journal =
      .running ((m.count (.push redeem)).push redeem) := by
  obtain ⟨steps, -, -⟩ := evaluate_inv signs
  obtain ⟨-, -, -, -, alt, conditions⟩ :=
    Machine.run_pushes (isPushOnly_iff.1 wrappable.pushOnly).2 rfl steps
  have executing : m.executing = true := by
    rw [Machine.executing, conditions]
    rfl
  have room : m.stack.length + 1 + m.alt.length ≤ Limit.stackItems := by
    rw [alt]
    exact Nat.le_of_succ_le (wrappable.room m signs)
  rw [evaluate_append_pushData wrappable.pushOnly wrappable.size wrappable.length_lt, signs]
  exact Machine.step_pushData wrappable.short
    (fun asked => isMinimalPush_forLength (wrappable.plain asked)) executing room

/-- An input that runs through leaves the script on top of what it leaves anyway, and one that does
not stops in the same state. -/
theorem resume_wrapped (wrappable : Wrappable judge scriptSig redeem journal) :
    (∃ below after, below.length + 2 ≤ Limit.stackItems ∧
      resume judge .legacy scriptSig { stack := [], journal } =
      { stack := below, journal := after } ∧
      resume judge .legacy (scriptSig ++ pushData redeem) { stack := [], journal } =
        { stack := redeem :: below, journal := after }) ∨
    ∃ stop m,
      resume judge .legacy scriptSig { stack := [], journal } = .ofOutcome (.halted stop m) ∧
      resume judge .legacy (scriptSig ++ pushData redeem) { stack := [], journal } =
        .ofOutcome (.halted stop m) := by
  rcases signs : evaluate judge.flags judge.checker .legacy scriptSig [] journal
    with m | ⟨stop, m⟩
  · refine .inl ⟨m.stack, m.journal, wrappable.room m signs, ?_, ?_⟩
    · rw [resume, signs]
      rfl
    · rw [resume, evaluate_wrapped wrappable signs]
      rfl
  · refine .inr ⟨stop, m, ?_, ?_⟩
    · rw [resume, signs]
    · rw [resume,
        evaluate_append_pushData wrappable.pushOnly wrappable.size wrappable.length_lt, signs]
      rfl

/-- The output's script finds that the hash is right. -/
theorem evaluate_committed {below : Stack Bytes} (room : below.length + 2 ≤ Limit.stackItems) :
    ∃ spent, evaluate judge.flags judge.checker .legacy (payToScriptHash (hash160 redeem))
        (redeem :: below) journal = .running spent ∧
      spent.stack = boolItem true :: below ∧ spent.journal = journal := by
  obtain ⟨spent, spends⟩ := evaluate_payToScriptHash_of_room room
  obtain ⟨item, rest, top, compared, asked⟩ := evaluate_payToScriptHash spends
  obtain ⟨rfl, rfl⟩ := List.cons.inj top
  refine ⟨spent, spends, ?_, asked⟩
  rw [compared, BEq.rfl]

/-! ## The way back -/

/-- A script is run and must end true, and then its witness is looked at. -/
def unlock (judge : Judge) (script : Bytes) (witness : List Bytes) (untouched : Bool)
    (malleated : ScriptError) (r : Run) : Run :=
  ((resume judge .legacy script r).andThen fun r => r.require (endsTrue r.stack) .evalFalse).andThen
    (checkWitness judge script witness untouched malleated)

/-- What is asked of a verification in the end. -/
def settle (judge : Judge) (called : Bool) (witness : List Bytes) (r : Run) : Run :=
  (r.require (!(judge.flags.has .cleanStack && judge.flags.has .p2sh && judge.flags.has .witness)
      || r.stack.length == 1) .cleanStack).andThen fun r =>
    r.require (!judge.flags.has .witness || called || witness.isEmpty) .witnessUnexpected

variable {scriptPubkey : Bytes} {pushed below : Stack Bytes} {r : Run}

/-- The rounds of a verification whose input only pushes. -/
theorem verify_eq (push : isPushOnly scriptSig = true) :
    verify judge scriptSig scriptPubkey witness journal =
      (resume judge .legacy scriptSig { stack := [], journal }).andThen fun signed =>
        (unlock judge scriptPubkey witness scriptSig.isEmpty .witnessMalleated signed).andThen
          fun r =>
          (if looksBehindHash judge.flags scriptPubkey then
              checkRedeemScript judge scriptSig witness signed.stack r
            else r).andThen
          (settle judge (callsForWitness judge.flags scriptPubkey signed.stack) witness) := by
  have permitted : (judge.flags.has .sigPushOnly && !isPushOnly scriptSig) = false := by
    rw [push, Bool.not_true, Bool.and_false]
  simp only [verify, permitted, Bool.false_eq_true, if_false, unlock, Run.andThen_assoc]
  rfl

/-- How the input's script must be does not matter if it is so, or if there is no witness
program. -/
theorem unlock_congr {untouched untouched' : Bool} {e e' : ScriptError}
    (apart : (untouched = true ∧ untouched' = true) ∨ witnessProgram? redeem = none) :
    unlock judge redeem witness untouched e r = unlock judge redeem witness untouched' e' r := by
  have same : checkWitness judge redeem witness untouched e =
      checkWitness judge redeem witness untouched' e' := by
    funext r
    rw [checkWitness, checkWitness]
    rcases apart with ⟨rfl, rfl⟩ | absent
    · rfl
    · rw [absent]
  rw [unlock, unlock, same]

/-- A script behind a hash runs on the items below it, away from the main stack. -/
theorem checkRedeemScript_alike (push : isPushOnly scriptSig = true) :
    (checkRedeemScript judge scriptSig witness (redeem :: below) r).Alike
      (unlock judge redeem witness (scriptSig == pushData redeem) .witnessMalleatedP2SH
        { stack := below, journal := r.journal }) := by
  rw [checkRedeemScript, push, Bool.not_true, if_neg Bool.false_ne_true]
  refine ⟨rfl, rfl, fun running => ?_⟩
  have running : (unlock judge redeem witness (scriptSig == pushData redeem) .witnessMalleatedP2SH
      { stack := below, journal := r.journal }).stop = none := running
  exact if_pos (Option.isNone_iff_eq_none.2 running)

/-- An output that asks for a script by its hash finds the right one and goes on. -/
theorem unlock_committed {untouched : Bool} {e : ScriptError}
    (room : below.length + 2 ≤ Limit.stackItems) :
    unlock judge (payToScriptHash (hash160 redeem)) witness untouched e
      { stack := redeem :: below, journal } = { stack := boolItem true :: below, journal } := by
  obtain ⟨spent, spends, left, asked⟩ := @evaluate_committed judge redeem journal below room
  have ran : resume judge .legacy (payToScriptHash (hash160 redeem))
      { stack := redeem :: below, journal } =
      { stack := boolItem true :: below, journal } := by
    rw [resume, spends, Run.ofOutcome, left, asked]
  have unlooked :
      ∀ r, checkWitness judge (payToScriptHash (hash160 redeem)) witness untouched e r = r := by
    intro r
    rw [checkWitness, witnessProgram?_payToScriptHash]
    exact ite_self r
  have good :
      Run.require { stack := boolItem true :: below, journal } (endsTrue (boolItem true :: below))
      .evalFalse = { stack := boolItem true :: below, journal } := rfl
  rw [unlock, ran, Run.andThen_mk, good, Run.andThen_mk, unlooked]

theorem looksBehindHash_committed (looks : judge.flags.has .p2sh = true) :
    looksBehindHash judge.flags (payToScriptHash (hash160 redeem)) = true := by
  rw [looksBehindHash, looks, isPayToScriptHash_iff.2 ⟨_, rfl⟩]
  rfl

/-- Whether a witness is called for can be seen through the hash. -/
theorem callsForWitness_committed (looks : judge.flags.has .p2sh = true)
    (plain : looksBehindHash judge.flags redeem = false) :
    callsForWitness judge.flags (payToScriptHash (hash160 redeem)) (redeem :: below) =
      callsForWitness judge.flags redeem pushed := by
  rw [callsForWitness, callsForWitness, witnessProgram?_payToScriptHash,
    looksBehindHash_committed looks, plain]
  simp

/-- **A script behind its hash.** A verification with a script behind a hash ends like the one with
the script in the output itself. -/
theorem verify_wrapped (wrappable : Wrappable judge scriptSig redeem journal)
    (apart : scriptSig = [] ∨ witnessProgram? redeem = none) :
    (verify judge (scriptSig ++ pushData redeem) (payToScriptHash (hash160 redeem)) witness
      journal).Alike (verify judge scriptSig redeem witness journal) := by
  have push := isPushOnly_append_pushData wrappable.pushOnly wrappable.length_lt
  have plain : looksBehindHash judge.flags redeem = false := by
    rw [looksBehindHash, wrappable.inner, Bool.and_false]
  have expected : ((scriptSig ++ pushData redeem == pushData redeem) = true ∧
      scriptSig.isEmpty = true) ∨ witnessProgram? redeem = none := by
    refine apart.imp_left ?_
    rintro rfl
    exact ⟨BEq.rfl, rfl⟩
  rw [verify_eq wrappable.pushOnly, verify_eq push]
  rcases resume_wrapped wrappable with ⟨below, after, room, ran, ran'⟩ | ⟨stop, m,
    ran, ran'⟩
  · have behind := @checkRedeemScript_alike judge _ redeem witness below
      { stack := boolItem true :: below, journal := after } push
    rw [@unlock_congr _ _ _ _ _ _ _ .witnessMalleated expected] at behind
    rw [ran, ran', Run.andThen_mk, Run.andThen_mk, unlock_committed room, Run.andThen_mk,
      if_pos (looksBehindHash_committed wrappable.looks)]
    rw [callsForWitness_committed wrappable.looks plain]
    -- without a hash to look behind, the round that follows does nothing
    simp only [plain, Bool.false_eq_true, if_false]
    rw [← @Run.andThen_assoc _ (fun r => r), Run.andThen_id]
    exact behind.andThen _
  · rw [ran, ran', Run.andThen_halted, Run.andThen_halted]
    exact .refl _

/-! ## Witness programs -/

/-- A witness program has between four and 42 bytes. -/
theorem length_of_witnessProgram? (program : (witnessProgram? redeem).isSome = true) :
    4 ≤ redeem.length ∧ redeem.length ≤ 42 := by
  rcases redeem with _ | ⟨version, _ | ⟨size, program'⟩⟩
  · cases program
  · cases program
  · rw [witnessProgram?] at program
    split at program
    next fits =>
      rw [List.length_cons, List.length_cons]
      omega
    next => cases program

/-- A witness program can always stand behind its hash, if the input has nothing else to say. -/
theorem wrappable_of_witnessProgram? (looks : judge.flags.has .p2sh = true)
    (program : (witnessProgram? redeem).isSome = true) : Wrappable judge [] redeem journal where
  looks := looks
  pushOnly := isPushOnly_nil
  room := by
    intro m signs
    obtain ⟨steps, -, -⟩ := evaluate_inv signs
    rw [instructions_nil] at steps
    obtain rfl := Outcome.running.inj steps
    exact show 2 ≤ 1000 by decide
  size := by
    have length := length_of_witnessProgram? program
    have whole := length_pushData_le redeem
    rw [List.nil_append, Limit.scriptSize]
    omega
  short := by
    have length := length_of_witnessProgram? program
    rw [Limit.pushSize]
    omega
  plain := by
    rintro - b rfl
    have length := length_of_witnessProgram? program
    simp at length
  -- a program is too short to be a script that asks for another one
  inner := by
    rw [Bool.eq_false_iff]
    intro shape
    obtain ⟨hash, rfl⟩ := isPayToScriptHash_iff.1 shape
    rw [witnessProgram?_payToScriptHash] at program
    cases program

end Script

/-! ## Verdicts -/

namespace Context

variable {ctx : Context} {checker : Checker} {scriptSig redeem : Bytes} {witness : List Bytes}
  {journal : Journal}

/-- Behind its hash, a script gets the verdict that it gets in the output, and asks the same. -/
theorem verifyScript_wrapped
    (wrappable : Script.Wrappable ⟨ctx.flags, checker⟩ scriptSig redeem journal)
    (apart : scriptSig = [] ∨ Script.witnessProgram? redeem = none) :
    let wrapped := ctx.verifyScript checker (scriptSig ++ Script.pushData redeem)
      (Script.payToScriptHash (hash160 redeem)) witness journal
    let plain := ctx.verifyScript checker scriptSig redeem witness journal
    wrapped.1.accepts = plain.1.accepts ∧ wrapped.1.error = plain.1.error ∧
      wrapped.1.unexpected = plain.1.unexpected ∧ wrapped.2 = plain.2 := by
  have alike := @Script.verify_wrapped _ _ _ witness _ wrappable apart
  obtain ⟨verdict, message⟩ := ctx.record_alike alike
  simp only [verifyScript, accepts]
  rw [verdict, message]
  exact ⟨rfl, rfl, rfl, alike.journal⟩

/-- **Witness programs behind their hashes.** Under the rule for script hashes, an output that asks
for a witness program by its hash is met by the same witnesses as the program itself, if the input
pushes the program and nothing else. Whatever the other flags are and whatever the checker answers,
both verifications end with the same verdict, also if it is a failure, and ask the same
questions. -/
theorem witness_program_behind_hash (looks : ctx.flags.has .p2sh = true)
    (program : (Script.witnessProgram? redeem).isSome = true) :
    let wrapped := ctx.verifyScript checker (Script.pushData redeem)
      (Script.payToScriptHash (hash160 redeem)) witness journal
    let plain := ctx.verifyScript checker [] redeem witness journal
    wrapped.1.accepts = plain.1.accepts ∧ wrapped.1.error = plain.1.error ∧
      wrapped.1.unexpected = plain.1.unexpected ∧ wrapped.2 = plain.2 := by
  rw [← List.nil_append (Script.pushData redeem)]
  exact verifyScript_wrapped (Script.wrappable_of_witnessProgram? looks program) (.inl rfl)

/-- A witness script behind two hashes is found by the witness that is the script, and by no other
one. -/
theorem witness_script_behind_two_hashes :
    let ctx : Context :=
      { flags := .ofList [.p2sh, .witness, .cleanStack, .sigPushOnly, .minimalData] }
    let program := Script.payToWitnessScript [Opcode.one]
    let after := fun witness => (ctx.verifyScript .base (Script.pushData program)
      (Script.payToScriptHash (hash160 program)) witness).1
    ctx.flags.has .p2sh = true ∧ (Script.witnessProgram? program).isSome = true ∧
      (after [[Opcode.one]]).accepts = true ∧
      (after [[Opcode.sixteen]]).error = .witnessProgramMismatch := by
  intro ctx program after
  have looks : ctx.flags.has .p2sh = true := by decide
  have shape : (Script.witnessProgram? program).isSome = true := by decide +kernel
  have alike := fun witness => @witness_program_behind_hash ctx .base program witness {} looks shape
  have accepted : (ctx.verifyScript .base [] program [[Opcode.one]]).1.accepts = true := by
    decide +kernel
  have rejected : (ctx.verifyScript .base [] program [[Opcode.sixteen]]).1.error =
      .witnessProgramMismatch := by
    decide +kernel
  exact ⟨looks, shape, (alike _).1.trans accepted, (alike _).2.1.trans rejected⟩

/-- **Scripts behind their hashes.** Under the rule for script hashes, an output that asks for a
script by its hash is met by the same inputs as the script itself, but for one more push. Whatever
the checker answers and whatever the witness, both verifications end with the same verdict, also
if it is a failure, and ask the same questions.

The script is no witness program, and it and the input are within the bounds of
`Script.Wrappable`. -/
theorem script_behind_hash
    (wrappable : Script.Wrappable ⟨ctx.flags, checker⟩ scriptSig redeem journal)
    (absent : Script.witnessProgram? redeem = none) :
    let wrapped := ctx.verifyScript checker (scriptSig ++ Script.pushData redeem)
      (Script.payToScriptHash (hash160 redeem)) witness journal
    let plain := ctx.verifyScript checker scriptSig redeem witness journal
    wrapped.1.accepts = plain.1.accepts ∧ wrapped.1.error = plain.1.error ∧
      wrapped.1.unexpected = plain.1.unexpected ∧ wrapped.2 = plain.2 :=
  verifyScript_wrapped wrappable (.inr absent)

/-- Sets an item aside, and takes it back if the one below is true. -/
def setAside : Bytes := [0x6b, 0x63, 0x6c, 0x67, 0x6a, 0x68]

/-- Behind its hash, too, the script ends well if it finds a true item, and returns otherwise. -/
theorem set_aside_behind_hash :
    let ctx : Context :=
      { flags := .ofList [.p2sh, .witness, .cleanStack, .sigPushOnly, .minimalData] }
    let after := fun scriptSig => (ctx.verifyScript .base (scriptSig ++ Script.pushData setAside)
      (Script.payToScriptHash (hash160 setAside)) []).1
    (after [0x51, 0x57]).accepts = true ∧ (after [0x00, 0x57]).error = .opReturn := by
  intro ctx after
  have push : ∀ flag ∈ [0x51, 0x00], Script.isPushOnly [flag, 0x57] = true := by decide +kernel
  have count : ∀ flag ∈ [0x51, 0x00], (Script.instructions [flag, 0x57]).length = 2 := by
    decide +kernel
  have wrappable : ∀ flag ∈ [0x51, 0x00],
      Script.Wrappable ⟨ctx.flags, .base⟩ [flag, 0x57] setAside {} := by
    intro flag mem
    refine ⟨by decide, push flag mem, ?_, show 9 ≤ 10000 by decide,
      show 6 ≤ 520 by decide, nofun, by decide⟩
    intro m signs
    rw [Script.length_of_evaluate_pushes (push flag mem) signs, count flag mem]
    decide
  have absent : Script.witnessProgram? setAside = none := by decide
  have alike := fun flag mem => @script_behind_hash ctx .base [flag, 0x57] setAside [] {}
    (wrappable flag mem) absent
  have accepted : (ctx.verifyScript .base [0x51, 0x57] setAside []).1.accepts = true := by
    decide +kernel
  have rejected : (ctx.verifyScript .base [0x00, 0x57] setAside []).1.error = .opReturn := by
    decide +kernel
  exact ⟨(alike 0x51 (by decide)).1.trans accepted, (alike 0x00 (by decide)).2.1.trans rejected⟩

end Context

end BlockRules
