import Mathlib
import BlockRules.Proofs.Script.Parsing
import BlockRules.Script.Machine

/-!
# Scripts that only push

A script of nothing but pushes has no way to look at the stack, to skip an instruction or to
ask a question. If it runs through at all, it leaves one item for each of its instructions on
top of what was there, the last one topmost, and the journal as it was
(`Script.evaluate_pushes`).

* **an instruction** — what it pushes can be read off it (`Instruction.item?`), and pushing
  that is all it does (`Machine.step_push`);
* **a run** — the items of its instructions, in order (`Machine.run_pushes`). It does not depend
  on the script that its instructions are taken from (`Machine.run_pushes_congr`), so one more push
  at the end of a script is one more step (`Script.evaluate_append_pushData`).
-/

namespace BlockRules

/-- Goes on with a machine that has not halted. -/
def Outcome.andThen (o : Outcome) (next : Machine → Outcome) : Outcome :=
  match o with
  | .running m => next m
  | .halted stop m => .halted stop m

theorem Outcome.andThen_running (m : Machine) (next : Machine → Outcome) :
    (Outcome.running m).andThen next = next m := rfl

/-- The item that an instruction pushes: its data or, for the opcode of a number, the number. -/
def Instruction.item? (i : Instruction) : Option Bytes :=
  match i.data with
  | some data => some data
  | none =>
    match Operation.ofOpcode i.opcode with
    | .number n => some (ScriptNum.encode n)
    | _ => none

namespace Machine

variable {env : Env} {i : Instruction} {m m' : Machine}

/-- An instruction that passes the checks does what it does, if there is room for what it leaves. -/
theorem step_of_checks (short : ∀ data ∈ i.data, data.length ≤ Limit.pushSize)
    (few : i.isPush = true ∨ m.opCount < Limit.operations)
    (enabled : Opcode.isDisabled i.opcode = false) :
    m.step env i = checkStackSize ((m.count i).execute env i) := by
  have fits : i.data.any (fun data => Limit.pushSize < data.length) = false := by
    rcases stated : i.data with _ | data
    · rfl
    · rw [Option.any_some, decide_eq_false_iff_not, Nat.not_lt]
      exact short data stated
  have counted : (!i.isPush && decide (Limit.operations < (m.count i).opCount)) = false := by
    rcases few with push | few
    · rw [push]
      rfl
    · rw [Bool.and_eq_false_iff, decide_eq_false_iff_not, Nat.not_lt, count]
      refine .inr ?_
      dsimp only
      split <;> omega
  rw [step, fits, if_neg Bool.false_ne_true, counted, if_neg Bool.false_ne_true, enabled,
    if_neg Bool.false_ne_true]

/-- With room for what it leaves, an instruction that passes the checks runs on. -/
theorem step_of_execute (short : ∀ data ∈ i.data, data.length ≤ Limit.pushSize)
    (few : i.isPush = true ∨ m.opCount < Limit.operations)
    (enabled : Opcode.isDisabled i.opcode = false)
    (done : (m.count i).execute env i = .running m')
    (room : m'.stack.length + m'.alt.length ≤ Limit.stackItems) : m.step env i = .running m' := by
  rw [step_of_checks short few enabled, done, checkStackSize, if_neg (Nat.not_lt.2 room)]

/-- An instruction runs on exactly if it passes the checks, what it does runs on, and there is room
for what it leaves. -/
theorem step_running_iff :
    m.step env i = .running m' ↔
      (∀ data ∈ i.data, data.length ≤ Limit.pushSize) ∧
      (i.isPush = true ∨ m.opCount < Limit.operations) ∧
      Opcode.isDisabled i.opcode = false ∧
      (m.count i).execute env i = .running m' ∧
      m'.stack.length + m'.alt.length ≤ Limit.stackItems := by
  constructor
  · intro ran
    rw [step] at ran
    split at ran
    next => cases ran
    next short =>
    split at ran
    next => cases ran
    next few =>
    split at ran
    next => cases ran
    next enabled =>
    refine ⟨?_, ?_, Bool.eq_false_iff.2 enabled, ?_⟩
    · intro data stated
      rw [stated, Option.any_some, decide_eq_true_iff, Nat.not_lt] at short
      exact short
    · rcases push : i.isPush with _ | _
      -- what is no push was counted before the limit is looked at
      · rw [push, Bool.not_false, Bool.true_and, decide_eq_true_iff, Nat.not_lt, count,
          push] at few
        exact .inr few
      · exact .inl rfl
    · rcases done : (m.count i).execute env i with after | ⟨stop, after⟩
      · rw [done, checkStackSize] at ran
        split at ran
        next => cases ran
        next room =>
          obtain rfl := Outcome.running.inj ran
          exact ⟨rfl, Nat.le_of_not_lt room⟩
      · rw [done] at ran
        cases ran
  · rintro ⟨short, few, enabled, done, room⟩
    exact step_of_execute short few enabled done room

/-- An instruction that runs on has passed the checks, and what is left is what it did. -/
theorem step_inv (ran : m.step env i = .running m') : (m.count i).execute env i = .running m' :=
  (step_running_iff.1 ran).2.2.2.1

/-- An instruction without data that runs on in a branch that is executed is an operation. -/
theorem step_operation (plain : i.data = none) (executing : m.executing = true)
    (ran : m.step env i = .running m') :
    (m.count i).perform env (Operation.ofOpcode i.opcode) = .running m' := by
  have done := step_inv ran
  rw [execute, plain] at done
  have counted : (m.count i).executing = true := executing
  simpa only [counted, Bool.true_or, if_true] using done

/-- In a branch that is executed, with operations left to count, an instruction without data is its
operation and then the check of the stack size. -/
theorem step_eq_perform (plain : i.data = none) (executing : m.executing = true)
    (few : m.opCount < Limit.operations) (enabled : Opcode.isDisabled i.opcode = false) :
    m.step env i = checkStackSize ((m.count i).perform env (Operation.ofOpcode i.opcode)) := by
  have short : ∀ data ∈ i.data, data.length ≤ Limit.pushSize := by
    rw [plain]
    rintro data ⟨⟩
  have counted : (m.count i).executing = true := executing
  rw [step_of_checks short (.inr few) enabled, execute, plain]
  simp only [counted, Bool.true_or, if_true]

/-- An operation in a branch that is executed is a step, if there is room for what it leaves. -/
theorem step_of_perform (plain : i.data = none) (executing : m.executing = true)
    (few : m.opCount < Limit.operations) (enabled : Opcode.isDisabled i.opcode = false)
    (done : (m.count i).perform env (Operation.ofOpcode i.opcode) = .running m')
    (room : m'.stack.length + m'.alt.length ≤ Limit.stackItems) : m.step env i = .running m' := by
  rw [step_eq_perform plain executing few enabled, done, checkStackSize, if_neg (Nat.not_lt.2 room)]

/-- A run goes on behind an instruction that runs on. -/
theorem run_cons_of_step {is : List Instruction} (stepped : m.step env i = .running m') :
    run env (i :: is) m = run env is m' := by
  rw [run, stepped]

/-- What runs on after a first instruction has run on after it. -/
theorem run_cons_inv {is : List Instruction} (ran : run env (i :: is) m = .running m') :
    ∃ next, m.step env i = .running next ∧ run env is next = .running m' := by
  rw [run] at ran
  split at ran
  next next stepped => exact ⟨next, stepped, ran⟩
  next => cases ran

/-- A run over two pieces is the run over the second after the run over the first. -/
theorem run_append {is js : List Instruction} :
    run env (is ++ js) m = (run env is m).andThen (run env js) := by
  induction is generalizing m with
  | nil => rfl
  | cons i is ih =>
    rw [List.cons_append, run, run]
    rcases m.step env i with next | ⟨stop, halted⟩
    · exact ih
    · rfl

/-- What runs on after two lists of instructions has run on after the first one. -/
theorem run_append_inv {is js : List Instruction} (ran : run env (is ++ js) m = .running m') :
    ∃ n, run env is m = .running n ∧ run env js n = .running m' := by
  rw [run_append] at ran
  rcases first : run env is m with n | ⟨stop, halted⟩ <;> rw [first] at ran
  · exact ⟨n, rfl, ran⟩
  · cases ran

theorem run_singleton : run env [i] m = m.step env i := by
  rw [run]
  rcases m.step env i with next | ⟨stop, halted⟩ <;> rfl

/-- The opcodes of pushes without data are those of numbers, and one that is invalid. -/
theorem ofOpcode_of_isPush {op : UInt8} (push : Opcode.isPush op = true) :
    (∃ n, Operation.ofOpcode op = .number n) ∨ Operation.ofOpcode op = .invalid := by
  have low : ¬ Opcode.sixteen < op := by
    rw [Opcode.isPush, decide_eq_true_iff] at push
    exact UInt8.not_lt.2 push
  rw [Operation.ofOpcode, if_neg low]
  split
  next => exact .inl ⟨_, rfl⟩
  next =>
    split
    next => exact .inl ⟨_, rfl⟩
    next => exact .inr rfl

/-- A push that runs on in a branch that is executed pushes its item and does nothing else. -/
theorem execute_push (push : i.isPush = true) (executing : m.executing = true)
    (ran : m.execute env i = .running m') : ∃ item, i.item? = some item ∧ m' = m.push item := by
  rw [execute] at ran
  rw [Instruction.item?]
  rcases stated : i.data with _ | data
  · simp only [stated, executing, Bool.true_or, if_true] at ran ⊢
    rcases ofOpcode_of_isPush push with ⟨n, number⟩ | invalid
    · rw [number] at ran ⊢
      exact ⟨_, rfl, (Outcome.running.inj ran).symm⟩
    · rw [invalid] at ran
      cases ran
  · simp only [stated, executing, if_true] at ran ⊢
    split at ran
    next => cases ran
    next => exact ⟨data, rfl, (Outcome.running.inj ran).symm⟩

/-- A push that goes through puts exactly its item on the stack. -/
theorem step_push (push : i.isPush = true) (executing : m.executing = true)
    (ran : m.step env i = .running m') :
    ∃ item, i.item? = some item ∧ m' = (m.count i).push item :=
  execute_push push executing (step_inv ran)

/-- A run of pushes leaves their items, and the second stack, the conditionals and the journal as
they were. -/
theorem run_pushes {is : List Instruction} (push : is.all Instruction.isPush = true)
    (executing : m.executing = true) (ran : run env is m = .running m') :
    ∃ items : List Bytes, is.map Instruction.item? = items.map some ∧
      m'.stack = items.reverse ++ m.stack ∧ m'.journal = m.journal ∧ m'.alt = m.alt ∧
      m'.conditions = m.conditions := by
  induction is generalizing m with
  | nil =>
    obtain rfl := Outcome.running.inj ran
    exact ⟨[], rfl, rfl, rfl, rfl, rfl⟩
  | cons i is ih =>
    rw [List.all_cons, Bool.and_eq_true] at push
    obtain ⟨next, stepped, rest⟩ := run_cons_inv ran
    obtain ⟨item, pushed, rfl⟩ := step_push push.1 executing stepped
    obtain ⟨items, names, left, same⟩ := @ih ((m.count i).push item) push.2 executing rest
    refine ⟨item :: items, ?_, ?_, same⟩
    · rw [List.map_cons, List.map_cons, names, pushed]
    · rw [left, List.reverse_cons, List.append_assoc]
      rfl

/-- A push in a branch that is executed depends on nothing but the flags. -/
theorem step_push_congr {env' : Env} (flags : env.flags = env'.flags) (push : i.isPush = true)
    (executing : m.executing = true) : m.step env i = m.step env' i := by
  have counted : (m.count i).executing = true := executing
  have same : (m.count i).execute env i = (m.count i).execute env' i := by
    rw [execute, execute, flags]
    rcases i.data with _ | data
    · dsimp only
      rcases ofOpcode_of_isPush push with ⟨n, number⟩ | invalid
      · rw [number]
        rfl
      · rw [invalid]
        rfl
    · rfl
  rw [step, step, same]

/-- A run of pushes depends on nothing but the flags. -/
theorem run_pushes_congr {env' : Env} {is : List Instruction} (flags : env.flags = env'.flags)
    (push : is.all Instruction.isPush = true) (executing : m.executing = true) :
    run env is m = run env' is m := by
  induction is generalizing m with
  | nil => rfl
  | cons i is ih =>
    rw [List.all_cons, Bool.and_eq_true] at push
    rw [run, run, step_push_congr flags push.1 executing]
    rcases stepped : m.step env' i with next | ⟨stop, halted⟩
    · obtain ⟨item, -, rfl⟩ := step_push push.1 executing stepped
      exact ih push.2 executing
    · rfl

/-- Data are pushed if they are not too long, there is room for them, and the opcode is one that the
flags admit. -/
theorem step_pushData {data : Bytes} (short : data.length ≤ Limit.pushSize)
    (minimal : env.flags.has .minimalData = true →
      Script.isMinimalPush (Opcode.forLength data.length) data = true)
    (executing : m.executing = true)
    (room : m.stack.length + 1 + m.alt.length ≤ Limit.stackItems) :
    m.step env (.push data) = .running ((m.count (.push data)).push data) := by
  have push : Instruction.isPush (.push data) = true := Opcode.isPush_forLength data.length
  refine step_of_execute ?_ (.inl push) (Opcode.isDisabled_of_isPush push) ?_ room
  · rintro _ ⟨⟩
    exact short
  · have counted : (m.count (.push data)).executing = true := executing
    have kind : (Instruction.push data).data = some data := rfl
    rw [execute, kind]
    dsimp only
    rw [counted, if_pos rfl, if_neg]
    rw [Bool.and_eq_true, Bool.not_eq_true', not_and, Bool.not_eq_false]
    exact minimal

end Machine

namespace Script

variable {flags : Flags} {checker : Checker} {version : SigVersion} {script : Bytes}
  {stack : Stack Bytes} {journal : Journal} {m : Machine}

/-- An evaluation that ends well is a run over all instructions, with nothing left over and no
open conditional. -/
theorem evaluate_inv (ran : evaluate flags checker version script stack journal = .running m) :
    Machine.run { flags, checker, version, script } (instructions script) { stack, journal } =
      .running m ∧ tail script = [] ∧ m.conditions = [] := by
  rw [evaluate] at ran
  split at ran
  next => cases ran
  next =>
    rcases done : Machine.run { flags, checker, version, script } (instructions script)
        { stack, journal } with after | ⟨stop, after⟩
    · simp only [done, Machine.finish] at ran
      split at ran
      next => cases ran
      next whole =>
        split at ran
        next => cases ran
        next closed =>
          obtain rfl := Outcome.running.inj ran
          exact ⟨rfl, by simpa using whole, by simpa using closed⟩
    · simp only [done, Machine.finish] at ran
      cases ran

/-- A run over all instructions is an evaluation, if nothing is left over and no conditional is
open. -/
theorem evaluate_of_run (size : script.length ≤ Limit.scriptSize)
    (steps : Machine.run { flags, checker, version, script } (instructions script)
      { stack, journal } =
      .running m) (whole : tail script = []) (closed : m.conditions = []) :
    evaluate flags checker version script stack journal = .running m := by
  rw [evaluate, if_neg (Nat.not_lt.2 size)]
  dsimp only
  rw [steps, whole, Machine.finish, closed]
  rfl

/-- **Pushes.** A script that only pushes leaves the items of its instructions on top of the
stack, the last one topmost, and asks nothing. -/
theorem evaluate_pushes (push : isPushOnly script = true)
    (ran : evaluate flags checker version script stack journal = .running m) :
    ∃ items : List Bytes, (instructions script).map Instruction.item? = items.map some ∧
      m.stack = items.reverse ++ stack ∧ m.journal = journal := by
  obtain ⟨items, names, left, asked, -, -⟩ :=
    Machine.run_pushes (isPushOnly_iff.1 push).2 rfl (evaluate_inv ran).1
  exact ⟨items, names, left, asked⟩

/-- It leaves as many items as it has instructions. -/
theorem length_of_evaluate_pushes (push : isPushOnly script = true)
    (ran : evaluate flags checker version script stack journal = .running m) :
    m.stack.length = (instructions script).length + stack.length := by
  obtain ⟨items, names, left, -⟩ := evaluate_pushes push ran
  have count := congrArg List.length names
  rw [List.length_map, List.length_map] at count
  rw [left, List.length_append, List.length_reverse, count]

/-- The evaluation of a script that only pushes is the run of its instructions. -/
theorem evaluate_of_isPushOnly (push : isPushOnly script = true)
    (size : script.length ≤ Limit.scriptSize) :
    evaluate flags checker version script stack journal =
      Machine.run { flags, checker, version, script } (instructions script) { stack, journal } := by
  obtain ⟨whole, pushes⟩ := isPushOnly_iff.1 push
  rw [evaluate]
  dsimp only
  rw [if_neg (Nat.not_lt.2 size), whole]
  rcases done : Machine.run { flags, checker, version, script } (instructions script)
      { stack, journal } with after | ⟨stop, after⟩
  · obtain ⟨-, -, -, -, -, closed⟩ := Machine.run_pushes pushes rfl done
    rw [Machine.finish, closed]
    rfl
  · rfl

/-- A push at the end of a script that only pushes is one more step. -/
theorem evaluate_append_pushData {data : Bytes} (push : isPushOnly script = true)
    (size : (script ++ pushData data).length ≤ Limit.scriptSize) (short : data.length < 2 ^ 32) :
    evaluate flags checker version (script ++ pushData data) stack journal =
      (evaluate flags checker version script stack journal).andThen fun m =>
        m.step { flags, checker, version, script := script ++ pushData data } (.push data) := by
  have smaller : script.length ≤ Limit.scriptSize := by
    rw [List.length_append] at size
    omega
  rw [evaluate_of_isPushOnly (isPushOnly_append_pushData push short) size,
    evaluate_of_isPushOnly push smaller,
    instructions_append_pushData (isPushOnly_iff.1 push).1 short, Machine.run_append]
  congr 1
  · exact Machine.run_pushes_congr rfl (isPushOnly_iff.1 push).2 rfl
  · funext m
    exact Machine.run_singleton

end Script

end BlockRules
