import Mathlib
import BlockRules.Proofs.Script.Acceptance
import BlockRules.Proofs.Script.KeyHash
import BlockRules.Proofs.Script.Wrapping

/-!
# What spends a witness program

An output that is a witness program of version zero is spent by its witness alone. This module
says which witnesses do, for programs of both lengths, when the input has no script:

* **a key hash** (20 bytes) — a signature and a key, of the hash that the program states;
* **a script hash** (32 bytes) — the items for a script, and on top of them the script itself. It
  leaves a single true item.

In either case no item may be longer than what can be pushed. There is one more condition that
the rules do not aim at. The output's script leaves the program on the stack, where it must be
true, so that an output with a program of nothing but zeros cannot be spent at all.

The rounds are taken forwards and backwards at once: for each way of putting runs together there is
an equivalence (`Run.andThen_ends_iff`, `Run.require_ends_iff`, `Script.resume_andThen_ends_iff`),
and so there is one for each round.
-/

namespace BlockRules

namespace Run

variable {r : Run} {next : Run → Run} {holds : Bool} {e : ScriptError}

theorem andThen_ends_iff : (r.andThen next).stop = none ↔
    r.stop = none ∧ (next r).stop = none := by
  constructor
  · intro ends
    obtain ⟨running, same⟩ := andThen_inv rfl ends
    exact ⟨running, same ▸ ends⟩
  · rintro ⟨running, ends⟩
    rw [andThen, running]
    exact ends

theorem stop_fail_ne_none : (r.fail e).stop ≠ none := by
  rw [fail]
  simp

theorem require_ends_iff : (r.require holds e).stop = none ↔ holds = true ∧ r.stop = none := by
  constructor
  · intro ends
    obtain ⟨met, same⟩ := require_inv rfl ends
    exact ⟨met, same ▸ ends⟩
  · rintro ⟨rfl, ends⟩
    exact ends

end Run

namespace Script

variable {judge : Judge} {script program : Bytes} {witness : List Bytes} {journal : Journal}
  {stack : Stack Bytes} {hash : UInt160}

/-! ## Witnesses -/

/-- A script and what follows end well exactly if evaluation does and the rest does from there. -/
theorem resume_andThen_ends_iff {version : SigVersion} {r : Run} {next : Run → Run} :
    ((resume judge version script r).andThen next).stop = none ↔
      ∃ m, evaluate judge.flags judge.checker version script r.stack r.journal = .running m ∧
        (next { stack := m.stack, journal := m.journal }).stop = none := by
  rw [resume]
  rcases evaluate judge.flags judge.checker version script r.stack r.journal with m | ⟨stop, m⟩
  · simp only [Run.ofOutcome, Run.andThen_mk, Outcome.running.injEq, exists_eq_left']
  · rw [Run.andThen_halted]
    simp [Run.ofOutcome]

/-- A single item is left, and it is true. -/
theorem sole_true_iff :
    (stack.length == 1 && endsTrue stack) = true ↔
      ∃ item, stack = [item] ∧ truthy item = true := by
  rcases stack with _ | ⟨item, _ | ⟨below, rest⟩⟩ <;> simp [endsTrue]

/-- **A witness script** ends well exactly if no item is too long and the script leaves a single
true item. -/
theorem runWitness_ends_iff :
    (runWitness judge script witness journal).stop = none ↔
      (∀ item ∈ witness, item.length ≤ Limit.pushSize) ∧
        ∃ m item, evaluate judge.flags judge.checker .witnessV0 script witness.reverse journal =
          .running m ∧ m.stack = [item] ∧ truthy item = true := by
  rw [runWitness]
  split
  next long =>
    obtain ⟨item, mem, tooLong⟩ := List.any_eq_true.1 long
    refine iff_of_false Run.stop_fail_ne_none fun ends => ?_
    exact Nat.not_lt.2 (ends.1 item mem) (of_decide_eq_true tooLong)
  next fits =>
    have short : ∀ item ∈ witness, item.length ≤ Limit.pushSize := by
      intro item mem
      refine Nat.le_of_not_lt fun tooLong => fits ?_
      exact List.any_eq_true.2 ⟨item, mem, decide_eq_true tooLong⟩
    simp only [resume_andThen_ends_iff, Run.require_ends_iff, sole_true_iff, and_true,
      iff_true_intro short, true_and, exists_and_left]

/-- When a payment to a key hash is accepted in a witness. -/
theorem runWitness_keyHash_ends_iff {sig key : Bytes} :
    (runWitness judge (payToKeyHash hash) [sig, key] journal).stop = none ↔
      sig.length ≤ Limit.pushSize ∧ key.length ≤ Limit.pushSize ∧ hash160 key = hash ∧
        judge.flags.checkForms .witnessV0 sig key = .ok () ∧
        judge.checker.respond journal.calls (.signature sig key (payToKeyHash hash) .witnessV0) =
          .yes := by
  rw [runWitness_ends_iff, List.forall_mem_cons, List.forall_mem_singleton, and_assoc]
  exact and_congr_right' (and_congr_right' evaluate_payToKeyHash_iff)

/-- A program of 20 bytes is met by two items on which the script for the key hash ends well. -/
theorem checkWitnessProgram_keyHash_ends_iff :
    (checkWitnessProgram judge witness 0 hash.bytesLE journal).stop = none ↔
      ∃ sig key, witness = [sig, key] ∧
        (runWitness judge (payToKeyHash hash) [sig, key] journal).stop = none := by
  have length : hash.bytesLE.length = 20 := hash.length_bytesLE
  have long : ¬hash.bytesLE.length = 32 := by
    rw [length]
    decide
  rw [checkWitnessProgram, if_neg (not_not.2 rfl), if_neg long, if_pos length,
    Wide.ofBytesLE_bytesLE]
  split
  next other =>
    refine iff_of_false Run.stop_fail_ne_none ?_
    rintro ⟨sig, key, rfl, -⟩
    exact other rfl
  next two =>
    obtain ⟨sig, key, rfl⟩ := List.length_eq_two.1 (not_not.1 two)
    constructor
    · exact fun ends => ⟨sig, key, rfl, ends⟩
    · rintro ⟨_, _, ⟨⟩, ends⟩
      exact ends

/-- A program of 32 bytes is met by a script with that hash on top of the items that it ends well
on. -/
theorem checkWitnessProgram_scriptHash_ends_iff (length : program.length = 32) :
    (checkWitnessProgram judge witness 0 program journal).stop = none ↔
      ∃ items script, witness = items ++ [script] ∧ sha256 script = program ∧
        (runWitness judge script items journal).stop = none := by
  rw [checkWitnessProgram, if_neg (not_not.2 rfl), if_pos length]
  rcases List.eq_nil_or_concat witness with rfl | ⟨items, script, rfl⟩
  · refine iff_of_false Run.stop_fail_ne_none ?_
    rintro ⟨items, script, empty, -⟩
    exact absurd empty.symm (List.append_ne_nil_of_right_ne_nil items (List.cons_ne_nil script []))
  · rw [List.concat_eq_append, List.getLast?_concat, List.dropLast_concat]
    dsimp only
    split
    next other =>
      refine iff_of_false Run.stop_fail_ne_none ?_
      rintro ⟨items', script', same, hashed, -⟩
      obtain ⟨-, rfl⟩ := List.append_singleton_inj.1 same
      exact other hashed
    next hashed =>
      constructor
      · exact fun ends => ⟨items, script, rfl, not_not.1 hashed, ends⟩
      · rintro ⟨items', script', same, -, ends⟩
        obtain ⟨rfl, rfl⟩ := List.append_singleton_inj.1 same
        exact ends

/-! ## Outputs -/

theorem witnessProgram?_program (enough : 2 ≤ program.length) (most : program.length ≤ 40) :
    witnessProgram? ([0x00] ++ pushData program) = some (0, program) := by
  have size : (UInt8.ofNat program.length).toNat = program.length := by
    rw [UInt8.toNat_ofNat']
    omega
  rw [pushData_of_length_lt (by omega), List.singleton_append, witnessProgram?,
    if_pos ⟨enough, most, size⟩]
  rfl

/-- The output's script leaves the program on top of an empty item, and asks nothing. -/
theorem evaluate_program {flags : Flags} {checker : Checker} (enough : 2 ≤ program.length)
    (most : program.length ≤ 40) :
    ∃ m, evaluate flags checker .legacy ([0x00] ++ pushData program) [] journal = .running m ∧
      m.stack = [program, []] ∧ m.journal = journal := by
  have nothing : ([] : Bytes).length < 2 ^ 32 := by decide
  have stated : program.length < 2 ^ 32 := by omega
  -- the version is a push too, of nothing, so the script is two pushes in a row
  have zero : isPushOnly ([] ++ pushData []) = true :=
    isPushOnly_append_pushData isPushOnly_nil nothing
  have size : (([] ++ pushData []) ++ pushData program).length ≤ Limit.scriptSize := by
    have pushed := length_pushData_le program
    have first : (pushData []).length = 1 := rfl
    rw [List.nil_append, List.length_append, first, Limit.scriptSize]
    omega
  have short : program.length ≤ Limit.pushSize := by
    rw [Limit.pushSize]
    omega
  have minimal : isMinimalPush (Opcode.forLength program.length) program = true :=
    isMinimalPush_of_length_ne_one (by omega)
  have spelled : ([0x00] ++ pushData program : Bytes) = ([] ++ pushData []) ++ pushData program :=
    rfl
  let start : Machine := { stack := [], journal }
  let below : Machine := (start.count (.push [])).push []
  let pushed : Machine := (below.count (.push program)).push program
  have first : ∀ env : Env, start.step env (.push []) = .running below := by
    intro env
    exact Machine.step_pushData (by decide) (fun _ => rfl) rfl (show 1 ≤ 1000 by decide)
  have second : ∀ env : Env, below.step env (.push program) = .running pushed := by
    intro env
    exact Machine.step_pushData short (fun _ => minimal) rfl (show 2 ≤ 1000 by decide)
  refine ⟨pushed, ?_, rfl, rfl⟩
  rw [spelled, evaluate_append_pushData zero size stated,
    evaluate_append_pushData isPushOnly_nil (by decide) nothing,
    evaluate_of_isPushOnly isPushOnly_nil (Nat.zero_le _), instructions_nil, Machine.run,
    Outcome.andThen_running, first, Outcome.andThen_running, second]

/-- Such an output asks for no script by its hash. -/
theorem looksBehindHash_program {flags : Flags} (enough : 2 ≤ program.length)
    (most : program.length ≤ 40) :
    looksBehindHash flags ([0x00] ++ pushData program) = false := by
  rw [looksBehindHash, Bool.and_eq_false_iff]
  refine .inr (Bool.eq_false_iff.2 fun shape => ?_)
  obtain ⟨hash, same⟩ := isPayToScriptHash_iff.1 shape
  have none := witnessProgram?_payToScriptHash hash
  rw [← same, witnessProgram?_program enough most] at none
  cases none

/-! ## Verifications -/

/-- The output's round ends well exactly if the program is true as an item, and met by the witness.
The witness then stands for the stack. -/
theorem unlock_program (looks : judge.flags.has .witness = true) (enough : 2 ≤ program.length)
    (most : program.length ≤ 40) {malleated : ScriptError} {r : Run}
    (ran : unlock judge ([0x00] ++ pushData program) witness true malleated
      { stack := [], journal } = r) :
    (r.stop = none ↔
      truthy program = true ∧
      (checkWitnessProgram judge witness 0 program journal).stop = none) ∧
    (r.stop = none → r.stack = settledStack) := by
  obtain ⟨m, spends, left, asked⟩ :=
    @evaluate_program program journal judge.flags judge.checker enough most
  have found := witnessProgram?_program enough most
  have resumed : resume judge .legacy ([0x00] ++ pushData program) { stack := [], journal } =
      { stack := [program, []], journal } := by
    rw [resume, spends, Run.ofOutcome, left, asked]
  rw [unlock, resumed, Run.andThen_mk] at ran
  rcases good : truthy program with _ | _
  · -- a false program fails the output's own script, before the witness is looked at
    have stopped : r.stop ≠ none := by
      rw [← ran, Ne, Run.andThen_ends_iff, Run.require_ends_iff]
      intro ends
      exact Bool.false_ne_true (good.symm.trans ends.1.1)
    exact ⟨iff_of_false stopped fun ends => Bool.false_ne_true ends.1,
      fun ends => absurd ends stopped⟩
  · have holds : endsTrue [program, []] = true := good
    rw [holds] at ran
    obtain rfl := ran
    constructor
    · rw [Run.require, if_pos rfl, Run.andThen_mk, checkWitness, if_pos looks, found]
      exact ⟨fun ends => ⟨rfl, ends⟩, And.right⟩
    · intro ends
      obtain ⟨-, -, -, settled⟩ | ⟨absent, -⟩ := checkWitness_inv rfl ends
      · exact settled
      · rw [absent looks] at found
        cases found

/-- In the end nothing more is asked of a single item, if a witness was called for. -/
theorem settle_ends_iff {r : Run} (sole : r.stack.length = 1) :
    (settle judge true witness r).stop = none ↔ r.stop = none := by
  simp [settle, Run.andThen_ends_iff, Run.require_ends_iff, sole]

/-- **One verification.** If witnesses are looked at, an input without a script spends a witness
program exactly if the program is true as an item, and met by the witness. -/
theorem verify_program_ends_iff (looks : judge.flags.has .witness = true)
    (enough : 2 ≤ program.length) (most : program.length ≤ 40) :
    (verify judge [] ([0x00] ++ pushData program) witness journal).stop = none ↔
      truthy program = true ∧
      (checkWitnessProgram judge witness 0 program journal).stop = none := by
  have called : callsForWitness judge.flags ([0x00] ++ pushData program) [] = true := by
    rw [callsForWitness, looks, witnessProgram?_program enough most]
    rfl
  have signs : resume judge .legacy [] { stack := [], journal } = { stack := [], journal } := by
    rw [resume, evaluate_of_isPushOnly isPushOnly_nil (Nat.zero_le _), instructions_nil]
    rfl
  obtain ⟨ends, settled⟩ :=
    @unlock_program judge program witness journal looks enough most .witnessMalleated _ rfl
  rw [verify_eq isPushOnly_nil, signs, Run.andThen_mk, looksBehindHash_program enough most, called,
    Run.andThen_ends_iff, Run.andThen_ends_iff, ← ends]
  constructor
  · exact And.left
  · intro running
    exact ⟨running, running,
      (settle_ends_iff (congrArg List.length (settled running))).2 running⟩

end Script

namespace Context

variable {ctx : Context} {checker : Checker} {witness : List Bytes} {journal : Journal}

/-- **What spends a witness program of version zero.** Where witnesses are looked at, an input
without a script spends

* the program for a key hash exactly if the hash is true as an item and the witness is a signature
  and a key, both short enough to be pushed and of the form that the flags ask for, where the key
  has the hash, and the checker says that the signature signs the script for the key hash;
* a program of 32 bytes exactly if the program is true as an item and the witness is a script with
  that hash on top of items short enough to be pushed, on which the script leaves a single true
  item. -/
theorem accepts_iff_witness_spends (looks : ctx.flags.has .witness = true) :
    (∀ hash : UInt160,
      (ctx.verifyScript checker [] (Script.payToWitnessKeyHash hash) witness journal).1.accepts =
          true ↔
        truthy hash.bytesLE = true ∧ ∃ sig key, witness = [sig, key] ∧
          sig.length ≤ Limit.pushSize ∧ key.length ≤ Limit.pushSize ∧ hash160 key = hash ∧
          ctx.flags.checkForms .witnessV0 sig key = .ok () ∧
          checker.respond journal.calls
            (.signature sig key (Script.payToKeyHash hash) .witnessV0) = .yes) ∧
    ∀ program : Bytes, program.length = 32 →
      ((ctx.verifyScript checker [] ([0x00] ++ Script.pushData program) witness journal).1.accepts =
          true ↔
        truthy program = true ∧
        ∃ items script, witness = items ++ [script] ∧ sha256 script = program ∧
          (∀ item ∈ items, item.length ≤ Limit.pushSize) ∧
          ∃ m item,
            Script.evaluate ctx.flags checker .witnessV0 script items.reverse journal =
              .running m ∧
            m.stack = [item] ∧ truthy item = true) := by
  constructor
  · intro hash
    have length : hash.bytesLE.length = 20 := hash.length_bytesLE
    rw [verifyScript_accepts_iff, Script.payToWitnessKeyHash,
      Script.verify_program_ends_iff looks (by omega) (by omega),
      Script.checkWitnessProgram_keyHash_ends_iff]
    simp only [Script.runWitness_keyHash_ends_iff]
  · intro program length
    rw [verifyScript_accepts_iff, Script.verify_program_ends_iff looks (by omega) (by omega),
      Script.checkWitnessProgram_scriptHash_ends_iff length]
    simp only [Script.runWitness_ends_iff]

/-- A key is spent with its signature but not with an empty one, and a script that compares two
items with two equal ones. -/
theorem spent_by_key_and_by_script :
    let ctx : Context := { flags := .ofList [.p2sh, .witness] }
    let checker : Checker := .listed [([0x07], [0x02, 0x03])] false false none none
    let keyHash := Script.payToWitnessKeyHash (hash160 [0x02, 0x03])
    ctx.flags.has .witness = true ∧
      (ctx.verifyScript checker [] keyHash [[0x07], [0x02, 0x03]]).1.accepts = true ∧
      (ctx.verifyScript checker [] keyHash [[], [0x02, 0x03]]).1.accepts = false ∧
      (sha256 [0x87]).length = 32 ∧
      (ctx.verifyScript checker [] ([0x00] ++ Script.pushData (sha256 [0x87]))
        [[0x05], [0x05], [0x87]]).1.accepts = true := by
  intro ctx checker keyHash
  have looks : ctx.flags.has .witness = true := by decide
  have nonzero : truthy (hash160 [0x02, 0x03]).bytesLE = true := by decide +kernel
  refine ⟨looks, ?_, ?_, length_sha256 _, ?_⟩
  · refine ((accepts_iff_witness_spends looks).1 _).2 ⟨nonzero, [0x07], [0x02, 0x03], rfl, ?_⟩
    exact ⟨by decide, by decide, rfl, by decide, by decide⟩
  · rw [Bool.eq_false_iff]
    intro accepted
    obtain ⟨-, sig, key, same, -, -, -, -, good⟩ :=
      ((accepts_iff_witness_spends looks).1 _).1 accepted
    obtain ⟨rfl, rfl⟩ : [] = sig ∧ [0x02, 0x03] = key := by simpa using same
    exact absurd good (by decide)
  · refine ((accepts_iff_witness_spends looks).2 _ (length_sha256 _)).2 ⟨by decide +kernel, ?_⟩
    refine ⟨[[0x05], [0x05]], [0x87], rfl, rfl, by decide, ?_⟩
    exact ⟨{ stack := [[1]], opCount := 1, position := 1 }, [1], by decide +kernel, rfl, rfl⟩

end Context

end BlockRules
