import Mathlib
import BlockRules.Proofs.Script.ScriptHash
import BlockRules.Proofs.Script.SoftFork

/-!
# What an acceptance guarantees

A verification that accepts has taken every one of its rounds to the end. This module reads the
rounds backwards: from the run as a whole to its parts, one lemma for each way of putting runs
together (`Run.andThen_inv`, `Run.require_inv`) and one for each round
(`Script.resume_inv`, `Script.checkWitness_inv`, `Script.checkRedeemScript_inv`).

The round for a script behind a hash says more than it checks. It takes the top item that the
input's script left, and it is the output's script that has compared the hash of that item
with its own. As the input's script only pushes, the item is what its last instruction says
(`Script.Redeems`).
-/

namespace BlockRules

namespace Run

variable {r f : Run} {next : Run → Run} {holds : Bool} {e : ScriptError}

/-- A chain of runs that ends well ends as the second one does after the first. -/
theorem andThen_inv (ran : r.andThen next = f) (ends : f.stop = none) :
    r.stop = none ∧ next r = f := by
  rw [andThen] at ran
  split at ran
  next stopped =>
    rw [ran, ends] at stopped
    cases stopped
  next running => exact ⟨running, ran⟩

/-- A run that ends well in spite of a condition meets it. -/
theorem require_inv (ran : r.require holds e = f) (ends : f.stop = none) :
    holds = true ∧ r = f := by
  cases holds with
  | true => exact ⟨rfl, ran⟩
  | false =>
    obtain rfl := ran
    cases ends

end Run

namespace Script

variable {judge : Judge} {version : SigVersion} {script scriptSig scriptPubkey redeem : Bytes}
  {witness : List Bytes} {journal : Journal} {r f : Run} {stack below pushed : Stack Bytes}

/-! ## One round after the other -/

/-- A script that is run to its end leaves what its evaluation leaves. -/
theorem resume_inv (ran : resume judge version script r = f) (ends : f.stop = none) :
    ∃ m, evaluate judge.flags judge.checker version script r.stack r.journal = .running m ∧
      f = { stack := m.stack, journal := m.journal } := by
  rw [resume] at ran
  rcases done : evaluate judge.flags judge.checker version script r.stack r.journal
    with m | ⟨stop, m⟩
  · rw [done] at ran
    exact ⟨m, rfl, ran.symm⟩
  · rw [done] at ran
    obtain rfl := ran
    cases ends

/-- A witness that is looked at and good settles the verification, and the input's script is as
expected; otherwise nothing has changed. -/
theorem checkWitness_inv {untouched : Bool} {malleated : ScriptError}
    (ran : checkWitness judge script witness untouched malleated r = f) (ends : f.stop = none) :
    (judge.flags.has .witness = true ∧ (witnessProgram? script).isSome = true ∧
      untouched = true ∧
      f.stack = settledStack) ∨
    ((judge.flags.has .witness = true → witnessProgram? script = none) ∧ r = f) := by
  rw [checkWitness] at ran
  split at ran
  next looks =>
    split at ran
    next absent => exact .inr ⟨fun _ => absent, ran⟩
    next version program found =>
      cases untouched with
      | false =>
        obtain rfl := ran
        cases ends
      | true =>
        obtain rfl := ran
        have settled : (checkWitnessProgram judge witness version program r.journal).stop = none :=
          ends
        refine .inl ⟨looks, by rw [found]; rfl, rfl, ?_⟩
        simp [settled]
  next blind => exact .inr ⟨fun looks => absurd looks blind, ran⟩

/-- Behind a hash stands the top item that the input left. It ran well on the items below, and
what is left is what it left or what stands for its witness. -/
theorem checkRedeemScript_inv
    (ran : checkRedeemScript judge scriptSig witness pushed r = f) (ends : f.stop = none) :
    isPushOnly scriptSig = true ∧ ∃ redeem below m, pushed = redeem :: below ∧
      evaluate judge.flags judge.checker .legacy redeem below r.journal = .running m ∧
      endsTrue m.stack = true ∧
      ((judge.flags.has .witness = true ∧ (witnessProgram? redeem).isSome = true ∧
        scriptSig = pushData redeem ∧ f.stack = settledStack) ∨
      ((judge.flags.has .witness = true → witnessProgram? redeem = none) ∧
        f.stack = m.stack)) := by
  unfold checkRedeemScript at ran
  split at ran
  next =>
    obtain rfl := ran
    cases ends
  next only =>
    rcases pushed with _ | ⟨redeem, below⟩
    · obtain rfl := ran
      cases ends
    -- the round is named before it is taken apart, as its result occurs twice
    · obtain ⟨inner, round⟩ : ∃ inner,
          ((resume judge .legacy redeem { stack := below, journal := r.journal }).andThen fun r =>
            r.require (endsTrue r.stack) .evalFalse).andThen
          (checkWitness judge redeem witness (scriptSig == pushData redeem) .witnessMalleatedP2SH) =
            inner := ⟨_, rfl⟩
      simp only [round] at ran
      obtain rfl := ran
      have inside : inner.stop = none := ends
      obtain ⟨running, watched⟩ := Run.andThen_inv round inside
      obtain ⟨ran, required⟩ := Run.andThen_inv rfl running
      obtain ⟨m, evaluated, left⟩ := resume_inv rfl ran
      obtain ⟨good, same⟩ := Run.require_inv required running
      rw [← same, left] at watched
      rw [left] at good
      refine ⟨by simpa using only, redeem, below, m, rfl, evaluated, good, ?_⟩
      rcases checkWitness_inv watched inside
        with ⟨looks, program, sole, settled⟩ | ⟨absent, rfl⟩
      · refine .inl ⟨looks, program, by simpa using sole, ?_⟩
        simp [inside, settled]
      · exact .inr ⟨absent, rfl⟩

/-- The rounds of a verification that ends well: the two scripts, the witness of the output, the
script behind its hash, and the rules about what is left. -/
theorem verify_inv (ran : verify judge scriptSig scriptPubkey witness journal = f)
    (ends : f.stop = none) :
    (judge.flags.has .sigPushOnly = true → isPushOnly scriptSig = true) ∧
    ∃ signed spent checked,
      evaluate judge.flags judge.checker .legacy scriptSig [] journal = .running signed ∧
      evaluate judge.flags judge.checker .legacy scriptPubkey signed.stack signed.journal =
        .running spent ∧
      endsTrue spent.stack = true ∧
      checkWitness judge scriptPubkey witness scriptSig.isEmpty .witnessMalleated
        { stack := spent.stack, journal := spent.journal } = checked ∧
      checked.stop = none ∧
      (if looksBehindHash judge.flags scriptPubkey then
          checkRedeemScript judge scriptSig witness signed.stack checked
        else checked) = f ∧
      (!(judge.flags.has .cleanStack && judge.flags.has .p2sh && judge.flags.has .witness)
        || f.stack.length == 1) = true ∧
      (!judge.flags.has .witness || callsForWitness judge.flags scriptPubkey signed.stack
        || witness.isEmpty) = true := by
  unfold verify at ran
  simp only at ran
  split at ran
  next =>
    obtain rfl := ran
    cases ends
  next permitted =>
    -- a verification that ends well has ended well in each of its parts, taken off from the front
    obtain ⟨running, ran⟩ := Run.andThen_inv ran ends
    obtain ⟨signed, signs, left⟩ := resume_inv rfl running
    rw [left] at ran
    obtain ⟨running, ran⟩ := Run.andThen_inv ran ends
    obtain ⟨spent, spends, left⟩ := resume_inv rfl running
    rw [left] at ran
    obtain ⟨running, ran⟩ := Run.andThen_inv ran ends
    obtain ⟨good, same⟩ := Run.require_inv rfl running
    rw [← same] at ran
    obtain ⟨checked, ran⟩ := Run.andThen_inv ran ends
    obtain ⟨behind, ran⟩ := Run.andThen_inv ran ends
    obtain ⟨running, ran⟩ := Run.andThen_inv ran ends
    obtain ⟨clean, same⟩ := Run.require_inv rfl running
    obtain ⟨expected, final⟩ := Run.require_inv ran ends
    rw [← same] at final
    obtain rfl := final
    refine ⟨?_, signed, spent, _, signs, spends, good, rfl, checked, rfl, clean, expected⟩
    intro pushes
    simpa [pushes] using permitted

/-! ## Behind a hash -/

/-- What an input gives for an output that asks for a script by its hash: the script `redeem`, and
the items `below` that it runs on. -/
structure Redeems (judge : Judge) (scriptSig scriptPubkey : Bytes) (journal : Journal)
    (redeem : Bytes) (below : Stack Bytes) : Prop where
  /-- the input's script only pushes -/
  pushOnly : isPushOnly scriptSig = true
  /-- its instructions push the items, and the last one the script -/
  pushed : (instructions scriptSig).map Instruction.item? = below.reverse.map some ++ [some redeem]
  /-- this is what it leaves -/
  left : ∃ m, evaluate judge.flags judge.checker .legacy scriptSig [] journal = .running m ∧
    m.stack = redeem :: below
  /-- the output holds the hash of the script -/
  committed : scriptPubkey = payToScriptHash (hash160 redeem)
  /-- the script ends well on the items below, with something true on top -/
  runs : ∃ m, evaluate judge.flags judge.checker .legacy redeem below journal = .running m ∧
    endsTrue m.stack = true

/-- What the rounds for a script behind a hash find out. -/
theorem redeems_of_rounds {signed spent ended : Machine} (only : isPushOnly scriptSig = true)
    (shape : isPayToScriptHash scriptPubkey = true)
    (signs : evaluate judge.flags judge.checker .legacy scriptSig [] journal = .running signed)
    (left : signed.stack = redeem :: below)
    (spends : evaluate judge.flags judge.checker .legacy scriptPubkey signed.stack signed.journal =
      .running spent)
    (matched : endsTrue spent.stack = true)
    (ran : evaluate judge.flags judge.checker .legacy redeem below spent.journal = .running ended)
    (good : endsTrue ended.stack = true) :
    Redeems judge scriptSig scriptPubkey journal redeem below := by
  obtain ⟨items, names, pushed, asked⟩ := evaluate_pushes only signs
  obtain ⟨hash, rfl⟩ := isPayToScriptHash_iff.1 shape
  obtain ⟨item, rest, top, compared, asked'⟩ := evaluate_payToScriptHash spends
  rw [left] at top
  obtain ⟨rfl, rfl⟩ := List.cons.inj top
  have same : hash160 redeem = hash := by
    rw [compared] at matched
    rcases equal : (hash160 redeem).bytesLE == hash.bytesLE with _ | _
    · rw [equal] at matched
      cases matched
    · rw [← Wide.ofBytesLE_bytesLE (hash160 redeem), eq_of_beq equal, Wide.ofBytesLE_bytesLE]
  have order : items = below.reverse ++ [redeem] := by
    rw [List.append_nil, left] at pushed
    rw [← List.reverse_reverse items, ← pushed, List.reverse_cons]
  refine ⟨only, ?_, ⟨signed, signs, left⟩, by rw [same], ended, ?_, good⟩
  · rw [names, order, List.map_append]
    rfl
  · rw [← asked, ← asked']
    exact ran

/-! ## The verification as a whole -/

/-- What is left has something true on top. -/
theorem endsTrue_of_verify (ran : verify judge scriptSig scriptPubkey witness journal = f)
    (ends : f.stop = none) : endsTrue f.stack = true := by
  obtain ⟨-, signed, spent, checked, -, -, good, watched, running, behind, -, -⟩ :=
    verify_inv ran ends
  split at behind
  next =>
    obtain ⟨-, redeem, below, m, -, -, good', settled | kept⟩ :=
      checkRedeemScript_inv behind ends
    · rw [settled.2.2.2]
      rfl
    · rw [kept.2]
      exact good'
  next =>
    obtain rfl := behind
    rcases checkWitness_inv watched running with settled | ⟨-, rfl⟩
    · rw [settled.2.2.2]
      rfl
    · exact good

/-- An output that is a witness program takes no script from the input. -/
theorem scriptSig_of_verify (ran : verify judge scriptSig scriptPubkey witness journal = f)
    (ends : f.stop = none) (looks : judge.flags.has .witness = true)
    (program : (witnessProgram? scriptPubkey).isSome = true) : scriptSig = [] := by
  obtain ⟨-, signed, spent, checked, -, -, -, watched, running, -, -, -⟩ := verify_inv ran ends
  rcases checkWitness_inv watched running with ⟨-, -, untouched, -⟩ | ⟨absent, -⟩
  · simpa using untouched
  · rw [absent looks] at program
    cases program

/-- Behind the hash in an output stands a script that runs well; if witnesses are looked at and it
is a witness program, the input pushes it and nothing else, and if it is none, there is no
witness. -/
theorem redeems_of_verify (ran : verify judge scriptSig scriptPubkey witness journal = f)
    (ends : f.stop = none) (asks : judge.flags.has .p2sh = true)
    (shape : isPayToScriptHash scriptPubkey = true) :
    ∃ redeem below, Redeems judge scriptSig scriptPubkey journal redeem below ∧
      (judge.flags.has .witness = true → (witnessProgram? redeem).isSome = true →
        scriptSig = pushData redeem) ∧
      (judge.flags.has .witness = true → witnessProgram? redeem = none → witness = []) := by
  obtain ⟨-, signed, spent, checked, signs, spends, good, watched, running, behind, -,
      expected⟩ :=
    verify_inv ran ends
  have plain : witnessProgram? scriptPubkey = none := by
    obtain ⟨hash, rfl⟩ := isPayToScriptHash_iff.1 shape
    exact witnessProgram?_payToScriptHash hash
  have looks : looksBehindHash judge.flags scriptPubkey = true := by
    rw [looksBehindHash, asks, shape]
    rfl
  have unchanged : { stack := spent.stack, journal := spent.journal } = checked := by
    rcases checkWitness_inv watched running with ⟨-, program, -, -⟩ | ⟨-, same⟩
    · rw [plain] at program
      cases program
    · exact same
  rw [if_pos looks, ← unchanged] at behind
  obtain ⟨only, redeem, below, m, left, evaluated, good', cases⟩ :=
    checkRedeemScript_inv behind ends
  refine ⟨redeem, below,
    redeems_of_rounds only shape signs left spends good evaluated good', ?_, ?_⟩
  · intro watches program
    rcases cases with ⟨-, -, sole, -⟩ | ⟨absent, -⟩
    · exact sole
    · rw [absent watches] at program
      cases program
  · intro watches absent
    simpa [watches, callsForWitness, plain, left, absent] using expected

/-- Where nothing calls for a witness there is none. -/
theorem witness_of_verify (ran : verify judge scriptSig scriptPubkey witness journal = f)
    (ends : f.stop = none) (looks : judge.flags.has .witness = true)
    (plain : witnessProgram? scriptPubkey = none)
    (visible : ¬ (judge.flags.has .p2sh = true ∧ isPayToScriptHash scriptPubkey = true)) :
    witness = [] := by
  obtain ⟨-, signed, -, -, -, -, -, -, -, -, -, expected⟩ := verify_inv ran ends
  have shown : looksBehindHash judge.flags scriptPubkey = false := by
    rw [Bool.eq_false_iff, Ne, looksBehindHash, Bool.and_eq_true]
    exact visible
  simpa [looks, callsForWitness, plain, shown] using expected

end Script

namespace Context

/-- **What an acceptance guarantees.** Whatever the checker answers, an input that is accepted has
the following properties.

* The verdict says so, and the stack that is left has something true on top. It has nothing else
  if a clean stack is asked for, together with the rules on script hashes and witnesses that it
  belongs to.
* If only pushes are allowed, the input's script has only pushes.
* If the output asks for a script by its hash and the flags to look at it, the input's script only
  pushes, the last item it pushes has the hash that the output holds, and is a script that ends
  well on the other items (`Script.Redeems`). If witnesses are looked at, the input's script is
  nothing but this push where the script is a witness program, and there is no witness where it is
  none.
* If witnesses are looked at and the output is a witness program, the input has no script; if the
  output neither is one nor asks for a script by a hash that is looked behind, there is no
  witness. -/
theorem guarantees_of_acceptance {ctx : Context} {checker : Checker}
    {scriptSig scriptPubkey : Bytes} {witness : List Bytes} {journal : Journal}
    (accepted :
      (ctx.verifyScript checker scriptSig scriptPubkey witness journal).1.accepts = true) :
    let after := (ctx.verifyScript checker scriptSig scriptPubkey witness journal).1
    (after.error = .ok ∧ ∃ top rest, after.stack = top :: rest ∧ truthy top = true) ∧
    (ctx.flags.has .cleanStack = true → ctx.flags.has .p2sh = true →
      ctx.flags.has .witness = true → after.stack.length = 1) ∧
    (ctx.flags.has .sigPushOnly = true → Script.isPushOnly scriptSig = true) ∧
    (ctx.flags.has .p2sh = true → Script.isPayToScriptHash scriptPubkey = true →
      ∃ redeem below,
        Script.Redeems ⟨ctx.flags, checker⟩ scriptSig scriptPubkey journal redeem below ∧
        (ctx.flags.has .witness = true → (Script.witnessProgram? redeem).isSome = true →
          scriptSig = Script.pushData redeem) ∧
        (ctx.flags.has .witness = true → Script.witnessProgram? redeem = none →
          witness = [])) ∧
    (ctx.flags.has .witness = true → (Script.witnessProgram? scriptPubkey).isSome = true →
      scriptSig = []) ∧
    (ctx.flags.has .witness = true → Script.witnessProgram? scriptPubkey = none →
      ¬ (ctx.flags.has .p2sh = true ∧ Script.isPayToScriptHash scriptPubkey = true) →
      witness = []) := by
  intro after
  have ends := verifyScript_accepts_iff.1 accepted
  obtain ⟨f, ran⟩ :
      ∃ f, Script.verify ⟨ctx.flags, checker⟩ scriptSig scriptPubkey witness journal = f :=
    ⟨_, rfl⟩
  rw [ran] at ends
  -- the context records the verdict and the stack that the verification ends with
  have recorded : after = { ctx with stack := f.stack, error := .ok, unexpected := none } := by
    simp only [after, verifyScript, ran, record, ends]
  obtain ⟨permitted, -, -, -, -, -, -, -, -, -, clean, -⟩ := Script.verify_inv ran ends
  rw [recorded]
  refine ⟨⟨rfl, ?_⟩, ?_, permitted, Script.redeems_of_verify ran ends,
    Script.scriptSig_of_verify ran ends, Script.witness_of_verify ran ends⟩
  · have good := Script.endsTrue_of_verify ran ends
    rcases left : f.stack with _ | ⟨top, rest⟩
    · rw [left] at good
      cases good
    · rw [left] at good
      exact ⟨top, rest, rfl, good⟩
  · intro cleanStack behind watches
    simpa [cleanStack, behind, watches] using clean

/-- A witness program of a version that nothing is known about. -/
def laterProgram : Bytes := [0x51, 0x02, 0xaa, 0xbb]

/-- Behind a hash, such a program is met by any witness, and the input pushes it and nothing
else. -/
theorem later_program_behind_hash :
    let ctx : Context := { flags := .ofList [.p2sh, .witness, .cleanStack, .sigPushOnly] }
    let scriptSig := Script.pushData laterProgram
    let scriptPubkey := Script.payToScriptHash (hash160 laterProgram)
    let after := (ctx.verifyScript .base scriptSig scriptPubkey [[0x07]]).1
    after.accepts = true ∧ after.error = .ok ∧ after.stack.length = 1 ∧
      ∃ redeem below,
        Script.Redeems ⟨ctx.flags, .base⟩ scriptSig scriptPubkey {} redeem below ∧
        scriptSig = Script.pushData redeem := by
  intro ctx scriptSig scriptPubkey after
  have accepted : after.accepts = true := by decide +kernel
  obtain ⟨⟨ok, -⟩, clean, -, behind, -, -⟩ := guarantees_of_acceptance accepted
  have asks : Script.isPayToScriptHash scriptPubkey = true :=
    Script.isPayToScriptHash_iff.2 ⟨_, rfl⟩
  have watches : ctx.flags.has .witness = true := by decide
  obtain ⟨redeem, below, redeems, sole, -⟩ := behind (by decide) asks
  have names : (Script.instructions scriptSig).map Instruction.item? = [some laterProgram] := by
    decide +kernel
  have last : laterProgram = redeem := by
    simpa [names] using congrArg List.getLast? redeems.pushed
  have program : (Script.witnessProgram? redeem).isSome = true := by
    rw [← last]
    decide
  exact ⟨accepted, ok, clean (by decide) (by decide) watches, redeem, below, redeems,
    sole watches program⟩

end Context

end BlockRules
