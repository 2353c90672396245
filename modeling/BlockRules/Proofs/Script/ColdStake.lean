import Mathlib
import BlockRules.Proofs.Script.Checkers
import BlockRules.Proofs.Script.Rounds
import BlockRules.Proofs.Script.SignedCode

/-!
# The mark of a cold stake

Scripts read the transaction that they are evaluated for, and leave one trace on it: the cold stake
check marks it. This module says exactly when, for single evaluations and for verifications, and
whether these end well or not.

* `Checker.AllowsMark` — the flags know the check, and the transaction is a coinstake. Otherwise
  the check does nothing, or fails;
* `Machine.ComesToCheck` — a run comes to such a check in a branch that is executed;
* `Machine.step_mark_iff`, `Machine.run_mark_iff`, `Round.mark_iff` — one instruction, one run,
  one evaluation: the mark is there if it was there before, or if a check is come to that sets it.
  The limit on operations is the only thing that can keep a check from it;
* `Round.marks_of_ended` — an evaluation that ends well has passed all of its checks;
* `Run.Comprises.mark_iff` — verifications, by induction on the rounds that they comprise.

That the mark is never looked at is a matter of the checker alone
(`TransactionChecker.alike_withMark`).
-/

namespace BlockRules

/-- The cold stake check, as an instruction. -/
def Instruction.coldStakeCheck : Instruction := ⟨0xb9, none⟩

theorem Operation.ofOpcode_eq_checkColdStake_iff : ∀ {op : UInt8},
    ofOpcode op = .checkColdStake ↔ op = 0xb9 := by
  decide +kernel

/-- The flags know the cold stake check, and the transaction is one that it lets pass. -/
def Checker.AllowsMark (checker : Checker) (flags : Flags) : Prop :=
  flags.has .checkColdStakeVerify = true ∧ checker.transaction.any Transaction.isCoinstake = true

namespace Machine

variable {env : Env} {m m' n : Machine} {i : Instruction} {is : List Instruction}

/-! ## Single instructions -/

/-- The check itself. -/
theorem perform_mark_iff (m : Machine) :
    (m.perform env .checkColdStake).machine.journal.coldStake = true ↔
    m.journal.coldStake = true ∨ env.checker.AllowsMark env.flags := by
  rw [perform, checkColdStake_eq, Checker.AllowsMark]
  rcases env.flags.has .checkColdStakeVerify with _ | _
  · simp only [Bool.false_eq_true, if_false, false_and, or_false, reserved]
    split <;> rfl
  · rcases env.checker.transaction.any Transaction.isCoinstake with _ | _ <;>
      simp [Outcome.machine, fail]

/-- Within the limit on operations, a check in a branch that is executed is carried out. -/
theorem step_coldStakeCheck (executing : m.executing = true) (few : m.opCount < Limit.operations) :
    m.step env .coldStakeCheck =
      checkStackSize ((m.count .coldStakeCheck).perform env .checkColdStake) := by
  have meant : Operation.ofOpcode Instruction.coldStakeCheck.opcode = .checkColdStake :=
    Operation.ofOpcode_eq_checkColdStake_iff.2 rfl
  rw [step_eq_perform rfl executing few (by decide), meant]

/-- Beyond the limit it is refused. -/
theorem step_coldStakeCheck_of_many (many : Limit.operations ≤ m.opCount) :
    m.step env .coldStakeCheck = (m.count .coldStakeCheck).fail .opCount := by
  have counted : (m.count .coldStakeCheck).opCount = m.opCount + 1 := rfl
  have beyond : Limit.operations < (m.count .coldStakeCheck).opCount := by omega
  have plain : Instruction.coldStakeCheck.data = none := rfl
  have operates : Instruction.coldStakeCheck.isPush = false := by decide
  simp [step, plain, operates, beyond]

/-- No other instruction touches the mark, and a check that is skipped does not either. -/
theorem step_mark_of_ne (other : i = .coldStakeCheck → m.executing = false) :
    (m.step env i).machine.journal.coldStake = m.journal.coldStake := by
  rcases step_machine env i m with left | left <;> rw [left]
  · rfl
  rcases i with ⟨op, _ | data⟩ <;> rw [execute] <;> dsimp only
  · split
    next active =>
      -- only the check itself could set the mark, but it is skipped
      refine (perform_frame env _ _).mark fun checks => ?_
      obtain rfl := Operation.ofOpcode_eq_checkColdStake_iff.1 checks
      have same : (m.count ⟨0xb9, none⟩).executing = m.executing := rfl
      rw [checks, same, other rfl] at active
      cases active
    next => rfl
  · split
    next => split <;> rfl
    next => rfl

/-- **One instruction.** -/
theorem step_mark_iff : (m.step env i).machine.journal.coldStake = true ↔
    m.journal.coldStake = true ∨
    (i = .coldStakeCheck ∧ m.executing = true ∧ m.opCount < Limit.operations) ∧
      env.checker.AllowsMark env.flags := by
  by_cases check : i = .coldStakeCheck ∧ m.executing = true
  · obtain ⟨rfl, executing⟩ := check
    by_cases few : m.opCount < Limit.operations
    · rw [step_coldStakeCheck executing few, checkStackSize_machine, perform_mark_iff]
      simp [executing, few, count]
    · rw [step_coldStakeCheck_of_many (Nat.le_of_not_lt few)]
      simp [few, count, fail, Outcome.machine]
  · rw [step_mark_of_ne fun own => Bool.eq_false_iff.2 fun executing => check ⟨own, executing⟩]
    refine (or_iff_left ?_).symm
    rintro ⟨⟨own, executing, -⟩, -⟩
    exact check ⟨own, executing⟩

/-- Flags that know the check let only coinstakes run on. -/
theorem allowsMark_of_step (executing : m.executing = true)
    (known : env.flags.has .checkColdStakeVerify = true)
    (ran : m.step env .coldStakeCheck = .running m') :
    env.checker.AllowsMark env.flags ∧ m.opCount < Limit.operations := by
  by_cases few : m.opCount < Limit.operations
  · refine ⟨⟨known, ?_⟩, few⟩
    rw [step_coldStakeCheck executing few, perform, known, checkColdStake_eq] at ran
    by_contra other
    rw [if_pos rfl, if_neg other] at ran
    cases ran
  · rw [step_coldStakeCheck_of_many (Nat.le_of_not_lt few)] at ran
    cases ran

/-! ## Runs -/

/-- A run comes to a cold stake check in a branch that is executed, in the state `m`. -/
def ComesToCheck (env : Env) (start : Machine) (is : List Instruction) (m : Machine) : Prop :=
  ∃ before, before ++ [.coldStakeCheck] <+: is ∧ run env before start = .running m ∧
    m.executing = true

theorem not_comesToCheck_nil : ¬ComesToCheck env m [] n := by
  rintro ⟨before, front, -⟩
  simp at front

/-- The first instruction is such a check, or it is come to from the next state on. -/
theorem comesToCheck_cons_iff : ComesToCheck env m (i :: is) n ↔
    (i = .coldStakeCheck ∧ m = n ∧ n.executing = true) ∨
      ∃ next, m.step env i = .running next ∧ ComesToCheck env next is n := by
  constructor
  · rintro ⟨_ | ⟨first, before⟩, front, ran, executing⟩
    · obtain ⟨rfl, -⟩ := List.cons_prefix_cons.1 front
      exact .inl ⟨rfl, Outcome.running.inj ran, executing⟩
    · obtain ⟨rfl, inner⟩ := List.cons_prefix_cons.1 front
      obtain ⟨next, stepped, ran⟩ := run_cons_inv ran
      exact .inr ⟨next, stepped, before, inner, ran, executing⟩
  · rintro (⟨rfl, rfl, executing⟩ | ⟨next, stepped, before, front, ran, executing⟩)
    · exact ⟨[], by simp, rfl, executing⟩
    · exact ⟨i :: before, List.cons_prefix_cons.2 ⟨rfl, front⟩,
        (run_cons_of_step stepped).trans ran, executing⟩

/-- The same for checks within the limit on operations. -/
theorem exists_comesToCheck_cons_iff :
    (∃ n, ComesToCheck env m (i :: is) n ∧ n.opCount < Limit.operations) ↔
      (i = .coldStakeCheck ∧ m.executing = true ∧ m.opCount < Limit.operations) ∨
        ∃ next, m.step env i = .running next ∧
          ∃ n, ComesToCheck env next is n ∧ n.opCount < Limit.operations := by
  simp only [comesToCheck_cons_iff]
  constructor
  · rintro ⟨n, ⟨check, rfl, executing⟩ | ⟨next, stepped, comes⟩, few⟩
    · exact .inl ⟨check, executing, few⟩
    · exact .inr ⟨next, stepped, n, comes, few⟩
  · rintro (⟨check, executing, few⟩ | ⟨next, stepped, n, comes, few⟩)
    · exact ⟨m, .inl ⟨check, rfl, executing⟩, few⟩
    · exact ⟨n, .inr ⟨next, stepped, comes⟩, few⟩

/-- **One run**, by induction on its instructions, whether it runs to the end or halts. -/
theorem run_mark_iff : (run env is m).machine.journal.coldStake = true ↔
    m.journal.coldStake = true ∨
    env.checker.AllowsMark env.flags ∧ ∃ n, ComesToCheck env m is n ∧
      n.opCount < Limit.operations := by
  induction is generalizing m with
  | nil => simp [run, Outcome.machine, not_comesToCheck_nil]
  | cons i is ih =>
    have first := @step_mark_iff env m i
    -- after the first instruction, the rest of a run that has halted can set nothing
    rw [exists_comesToCheck_cons_iff, and_or_left, and_comm, ← or_assoc, ← first, run]
    rcases m.step env i with next | ⟨stop, halted⟩
    · simp only [Outcome.running.injEq, exists_eq_left']
      exact ih
    · simp

end Machine

namespace Round

variable {judge : Judge} {round : Round} {m m' : Machine}

/-- An evaluation comes to a cold stake check in a branch that is executed, in the state `m`. -/
def ComesToCheck (judge : Judge) (round : Round) (m : Machine) : Prop :=
  ∃ taken, Script.Reaches ⟨judge.flags, judge.checker, round.version,
    round.script⟩ round.stack
      round.journal taken m ∧
    taken ++ [.coldStakeCheck] <+: Script.instructions round.script ∧ m.executing = true

/-- An evaluation marks the transaction. -/
def Marks (judge : Judge) (round : Round) : Prop :=
  judge.checker.AllowsMark judge.flags ∧
    ∃ m, round.ComesToCheck judge m ∧ m.opCount < Limit.operations

/-- A mark is set exactly if some round comes to the check with an operation left, where it is
allowed. -/
theorem exists_marks_iff {rounds : List Round} : (∃ round ∈ rounds, round.Marks judge) ↔
    judge.checker.AllowsMark judge.flags ∧
      ∃ round ∈ rounds, ∃ m, round.ComesToCheck judge m ∧ m.opCount < Limit.operations := by
  constructor
  · rintro ⟨round, mem, allowed, comes⟩
    exact ⟨allowed, round, mem, comes⟩
  · rintro ⟨allowed, round, mem, comes⟩
    exact ⟨round, mem, allowed, comes⟩

/-- A round comes to the check exactly if its script is evaluated and reaches it. -/
theorem comesToCheck_iff : round.ComesToCheck judge m ↔
    round.script.length ≤ Limit.scriptSize ∧
    Machine.ComesToCheck ⟨judge.flags, judge.checker, round.version, round.script⟩
      { stack := round.stack, journal := round.journal } (Script.instructions round.script) m := by
  constructor
  · rintro ⟨taken, ⟨size, -, ran⟩, front, executing⟩
    exact ⟨size, taken, front, ran, executing⟩
  · rintro ⟨size, taken, front, ran, executing⟩
    exact ⟨taken, ⟨size, (List.prefix_append taken _).trans front, ran⟩, front, executing⟩

/-- **One evaluation**, whether it ends well or not. -/
theorem mark_iff : (round.outcome judge).machine.journal.coldStake = true ↔
    round.journal.coldStake = true ∨ round.Marks judge := by
  simp only [Marks, comesToCheck_iff, outcome, Script.evaluate]
  split
  next long =>
    have tooLong : ¬round.script.length ≤ Limit.scriptSize := Nat.not_le.2 long
    simp [tooLong, Machine.fail, Outcome.machine]
  next size =>
    rw [Machine.finish_machine, Machine.run_mark_iff]
    simp only [Nat.le_of_not_lt size, true_and]

/-- **An evaluation that ends well has passed every check that it came to.** -/
theorem marks_of_ended (ended : round.outcome judge = .running m')
    (known : judge.flags.has .checkColdStakeVerify = true) (comes : round.ComesToCheck judge m) :
    round.Marks judge := by
  obtain ⟨-, before, ⟨behind, whole⟩, ran, executing⟩ := comesToCheck_iff.1 comes
  -- the run that ended well has got past the check, which was its next instruction
  have all := (Script.evaluate_inv ended).1
  rw [← whole] at all
  obtain ⟨next, upTo, -⟩ := Machine.run_append_inv all
  rw [Machine.run_append, ran] at upTo
  simp only [Outcome.andThen, Machine.run_singleton] at upTo
  obtain ⟨allowed, few⟩ := Machine.allowsMark_of_step executing known upTo
  exact ⟨allowed, m, comes, few⟩

end Round

/-! ## Verifications -/

namespace Run

variable {judge : Judge} {rounds : List Round} {before : Journal} {r : Run}

theorem ofOutcome_journal (o : Outcome) : (ofOutcome o).journal = o.machine.journal := by
  cases o <;> rfl

/-- **A verification marks the transaction just if one of its rounds does.** -/
theorem Comprises.mark_iff (h : Comprises judge before rounds r) :
    r.journal.coldStake = true ↔
      before.coldStake = true ∨ ∃ round ∈ rounds, round.Marks judge := by
  induction h with
  | idle same _ => simp [same]
  | refused same _ _ => simp [same]
  | round same _ left => simp [left, ofOutcome_journal, Round.mark_iff, same]
  | chain _ _ _ ih ih' => simp only [ih', ih, List.mem_append, or_and_right, exists_or, or_assoc]

end Run

/-! ## The transaction -/

namespace TransactionChecker

variable {c : TransactionChecker} {flags : Flags}

/-- The same checker for a transaction with or without the mark. -/
def withMark (c : TransactionChecker) (mark : Bool) : TransactionChecker :=
  { c with transaction := { c.transaction with coldStake := mark } }

theorem afterwards_eq (c : TransactionChecker) (journal : Journal) :
    c.afterwards journal = c.withMark (c.transaction.coldStake || journal.coldStake) := rfl

theorem allowsMark_iff : c.toChecker.AllowsMark flags ↔
    flags.has .checkColdStakeVerify = true ∧ c.transaction.isCoinstake = true := Iff.rfl

/-- **No script can tell whether the transaction is marked.** -/
theorem alike_withMark (c : TransactionChecker) (mark : Bool) :
    (c.withMark mark).toChecker.Alike c.toChecker where
  respond := by
    funext before q
    rcases q with ⟨sig, key, code, _ | _⟩ | n | n <;> rfl
  coinstake := rfl

/-- What a run does to the transaction: it marks it, or it does nothing to it. The run comes to the
given rounds, and ends in a context and with a journal. -/
structure OnlyMarks (c : TransactionChecker) (flags : Flags) (rounds : List Round)
    (ended : Context × Journal) : Prop where
  /-- nothing but the mark is different afterwards -/
  rest : ∃ mark, c.afterwards ended.2 = c.withMark mark
  /-- the mark stays, and it is set by the checks that are come to in branches that are executed -/
  mark : (c.afterwards ended.2).transaction.coldStake = true ↔
    c.transaction.coldStake = true ∨
      flags.has .checkColdStakeVerify = true ∧ c.transaction.isCoinstake = true ∧
        ∃ round ∈ rounds, ∃ m, round.ComesToCheck ⟨flags, c.toChecker⟩ m ∧
          m.opCount < Limit.operations
  /-- a run that ends well has passed all of these checks -/
  passed : ended.1.accepts = true → flags.has .checkColdStakeVerify = true →
    (∃ round ∈ rounds, ∃ m, round.ComesToCheck ⟨flags, c.toChecker⟩ m) →
      c.transaction.isCoinstake = true ∧ (c.afterwards ended.2).transaction.coldStake = true

/-- A run made of rounds changes the transaction by the mark only. -/
theorem onlyMarks_of_comprises (ctx : Context) {rounds : List Round} {r : Run}
    (h : Run.Comprises ⟨ctx.flags, c.toChecker⟩ {} rounds r) :
    c.OnlyMarks ctx.flags rounds (ctx.record r, r.journal) := by
  have mark : (c.afterwards r.journal).transaction.coldStake = true ↔
      c.transaction.coldStake = true ∨
        ∃ round ∈ rounds, round.Marks ⟨ctx.flags, c.toChecker⟩ := by
    have own := h.mark_iff
    simp only [Bool.false_eq_true, false_or] at own
    rw [afterwards_eq, withMark, Bool.or_eq_true, own]
  refine ⟨⟨_, rfl⟩, ?_, ?_⟩
  · rw [mark, Round.exists_marks_iff, allowsMark_iff, and_assoc]
  · rintro accepted known ⟨round, mem, m, comes⟩
    have running := (Context.accepts_record_iff ctx h.isExplainedBy).1 accepted
    obtain ⟨m', ended⟩ := h.ended running round mem
    have marks := Round.marks_of_ended ended known comes
    exact ⟨(allowsMark_iff.1 marks.1).2, mark.2 (.inr ⟨round, mem, marks⟩)⟩

end TransactionChecker

namespace Context

/-- **The mark of a cold stake.** An evaluation or a verification for an input of a transaction does
nothing to the transaction but mark it: if the flags know the cold stake check, the transaction is a
coinstake, and such a check is come to in a branch that is executed, within the limit on operations.
If the run ends well, every check that it came to has set the mark. The run does not depend on
whether the transaction was marked before. -/
theorem only_marks_transaction (ctx : Context) (c : TransactionChecker) :
    (∀ version script,
      c.OnlyMarks ctx.flags [⟨version, script, ctx.stack, {}⟩]
        (ctx.evalScript c.toChecker version script) ∧
      ∀ mark, ctx.evalScript (c.withMark mark).toChecker version script =
        ctx.evalScript c.toChecker version script) ∧
    ∀ scriptSig scriptPubkey witness,
      c.OnlyMarks ctx.flags
        (Script.rounds ⟨ctx.flags, c.toChecker⟩ scriptSig scriptPubkey witness {})
        (ctx.verifyScript c.toChecker scriptSig scriptPubkey witness) ∧
      ∀ mark, ctx.verifyScript (c.withMark mark).toChecker scriptSig scriptPubkey witness =
        ctx.verifyScript c.toChecker scriptSig scriptPubkey witness := by
  refine ⟨fun version script => ⟨?_, fun mark => ?_⟩,
    fun scriptSig scriptPubkey witness => ⟨?_, fun mark => ?_⟩⟩
  · exact TransactionChecker.onlyMarks_of_comprises ctx
      (@Script.resume_comprises ⟨ctx.flags, c.toChecker⟩ version script
        { stack := ctx.stack, journal := {} })
  · simp only [evalScript, Script.evaluate_congr (c.alike_withMark mark)]
  · exact TransactionChecker.onlyMarks_of_comprises ctx Script.verify_comprises
  · exact verifyScript_congr (c.alike_withMark mark) ctx scriptSig scriptPubkey witness {}

/-- A check sets the mark even if the script fails behind it, and none is set in a branch that is
skipped. -/
example :
    let coinstake : Transaction :=
      { version := 1, lockTime := 0, inputs := [⟨⟨Wide.one, 0⟩, [], 0, []⟩]
        outputs := [⟨0, []⟩, ⟨10, [0x51]⟩] }
    let c : TransactionChecker := { transaction := coinstake, index := 0, amount := 0 }
    let ctx : Context := { flags := .single .checkColdStakeVerify }
    let failed := ctx.evalScript c.toChecker .legacy [0xb9, 0x6a]
    let skipped := ctx.evalScript c.toChecker .legacy [0x00, 0x63, 0xb9, 0x68, 0x51]
    (failed.1.accepts = false ∧ (c.afterwards failed.2).transaction.coldStake = true) ∧
      skipped.1.accepts = true ∧ (c.afterwards skipped.2).transaction.coldStake = false := by
  decide +kernel

end Context

end BlockRules
