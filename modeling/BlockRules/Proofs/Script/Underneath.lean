import Mathlib
import BlockRules.Proofs.Script.SignedCode
import BlockRules.Proofs.Script.SoftFork

/-!
# Items underneath

A script works on the top of the stack, and what lies below the items that it takes is out of its
sight. Only one instruction looks at the stack as a whole, the one that pushes the number of items
(`Instruction.depth`). Without it, a script does the same with more items underneath, and leaves
them there; what can come in between is the bound on the number of items.

* `Machine.onto` — a machine with more items underneath, and `Outcome.Carries` — wherever one
  outcome runs on, another one runs on in the same state with more items underneath;
* `Machine.perform_carries` — every other operation works alike with more items underneath. Where
  it runs on, it has found all of the items that it asks for by their depth, so they are above the
  new ones;
* `Machine.step_onto`, `Machine.run_onto` — one instruction, and all of them: the longer stack is
  carried along, or it stops the run at a machine that is too full for it;
* `Script.evaluate_onto` — the same for an evaluation as a whole.
-/

namespace BlockRules

/-- The instruction that pushes the number of items. -/
def Instruction.depth : Instruction := ⟨0x74, none⟩

theorem Operation.ofOpcode_eq_depth_iff : ∀ {op : UInt8},
    ofOpcode op = .arrange .depth ↔ op = 0x74 := by
  decide +kernel

/-! ## Lists with more items behind -/

/-- What is found behind some items is found there if there are more items. -/
theorem drop_append_of_drop_eq_cons {α : Type} {xs ys rest : List α} {x : α} {k : Nat}
    (found : xs.drop k = x :: rest) :
    (xs ++ ys).drop k = x :: (rest ++ ys) ∧ (xs ++ ys).take k = xs.take k := by
  have inside : k ≤ xs.length := by
    have size := congrArg List.length found
    rw [List.length_drop, List.length_cons] at size
    omega
  rw [List.drop_append_of_le_length inside, List.take_append_of_le_length inside, found,
    List.cons_append]
  exact ⟨rfl, rfl⟩

/-- Arrangements other than the number of items work on the top of the stack. -/
theorem Arrange.apply_append {a : Arrange} {s s' : Stack Bytes} (other : a ≠ .depth)
    (applied : a.apply s = some s') (below : Stack Bytes) :
    a.apply (s ++ below) = some (s' ++ below) := by
  fun_cases Arrange.apply a s <;>
    simp only [Arrange.apply, Option.some.injEq, reduceCtorEq] at applied
  case case15 => exact absurd rfl other
  all_goals
    subst applied
    simp only [List.cons_append, Arrange.apply]
  split <;> rfl

namespace Machine

/-- The machine with more items underneath those of its stack. -/
def onto (m : Machine) (below : Stack Bytes) : Machine := { m with stack := m.stack ++ below }

@[simp] theorem onto_stack (m : Machine) (below : Stack Bytes) :
    (m.onto below).stack = m.stack ++ below := rfl

@[simp] theorem onto_journal (m : Machine) (below : Stack Bytes) :
    (m.onto below).journal = m.journal := rfl

@[simp] theorem onto_executing (m : Machine) (below : Stack Bytes) :
    (m.onto below).executing = m.executing := rfl

/-- What is signed does not depend on the stack. -/
@[simp] theorem onto_signedCode (env : Env) (m : Machine) (below : Stack Bytes)
    (sigs : List Bytes) :
    (m.onto below).signedCode env sigs = m.signedCode env sigs := rfl

end Machine

/-- Wherever the outcome `o` runs on, `o'` runs on in the same state with more items underneath. -/
def Outcome.Carries (below : Stack Bytes) (o' o : Outcome) : Prop :=
  ∀ m, o = .running m → o' = .running (m.onto below)

namespace Machine

variable {env : Env} {m n : Machine} {o o' : Outcome} {below : Stack Bytes}

/-! ## Carrying items along -/

theorem carries_fail {e : ScriptError} : o'.Carries below (m.fail e) := nofun

theorem carries_halt {stop : Stop} : o'.Carries below (m.halt stop) := nofun

theorem running_carries : (Outcome.running (m.onto below)).Carries below (.running m) := by
  rintro _ ⟨⟩
  rfl

/-- A check that does not depend on what lies underneath. -/
theorem guard_carries {a : Prop} [Decidable a] {e : ScriptError} (h : ¬a → o'.Carries below o) :
    (if a then n.fail e else o').Carries below (if a then m.fail e else o) := by
  by_cases stops : a
  · rw [if_pos stops, if_pos stops]
    exact carries_fail
  · rw [if_neg stops, if_neg stops]
    exact h stops

/-- Reading an operand looks at the item only. -/
theorem readNumber_carries {limit : Nat} {item : Bytes} {next next' : Int → Outcome}
    (h : ∀ value, (next' value).Carries below (next value)) :
    (match env.flags.readNumber limit item with
      | .error stop => n.halt stop
      | .ok value => next' value).Carries below
    (match env.flags.readNumber limit item with
      | .error stop => m.halt stop
      | .ok value => next value) := by
  rcases env.flags.readNumber limit item with stop | value
  · exact carries_halt
  · exact h value

theorem conclude_carries {ifFalse : Option ScriptError} {holds : Bool} (same : n = m.onto below) :
    (n.conclude ifFalse holds).Carries below (m.conclude ifFalse holds) := by
  subst same
  rcases ifFalse with _ | e
  · exact running_carries
  · cases holds with
    | false => exact carries_fail
    | true => exact running_carries

/-! ## Single operations -/

theorem reserved_carries : ((m.onto below).reserved env).Carries below (m.reserved env) :=
  guard_carries fun _ => running_carries

theorem askTime_carries {q : Query} :
    ((m.onto below).askTime env q).Carries below (m.askTime env q) := by
  simp only [askTime, onto]
  rcases m.journal.ask env.checker q with ⟨_ | _ | text, journal⟩
  · exact running_carries
  · exact carries_fail
  · exact carries_halt

theorem checkLockTime_carries :
    ((m.onto below).checkLockTime env).Carries below (m.checkLockTime env) := by
  rcases items : m.stack with _ | ⟨top, rest⟩
  · simp only [checkLockTime, items]
    exact carries_fail
  · simp only [checkLockTime, onto_stack, items, List.cons_append]
    exact readNumber_carries fun _ => guard_carries fun _ => askTime_carries

theorem checkSequence_carries :
    ((m.onto below).checkSequence env).Carries below (m.checkSequence env) := by
  rcases items : m.stack with _ | ⟨top, rest⟩
  · simp only [checkSequence, items]
    exact carries_fail
  · simp only [checkSequence, onto_stack, items, List.cons_append]
    refine readNumber_carries fun _ => guard_carries fun _ => ?_
    split
    next => exact running_carries
    next => exact askTime_carries

theorem checkColdStake_carries :
    ((m.onto below).checkColdStake env).Carries below (m.checkColdStake env) := by
  rw [checkColdStake, checkColdStake]
  rcases env.checker.transaction with _ | tx <;> dsimp only
  · exact carries_fail
  · split
    next => exact running_carries
    next => exact carries_fail

theorem openBranch_carries {inverted : Bool} :
    ((m.onto below).openBranch env inverted).Carries below (m.openBranch env inverted) := by
  have same : (m.onto below).executing = m.executing := rfl
  rw [openBranch, openBranch, same]
  split
  next =>
    rcases items : m.stack with _ | ⟨top, rest⟩
    · exact carries_fail
    · simp only [onto_stack, items, List.cons_append]
      exact guard_carries fun _ => running_carries
  next => exact running_carries

theorem switchBranch_carries : (m.onto below).switchBranch.Carries below m.switchBranch := by
  rcases branches : m.conditions with _ | ⟨c, cs⟩ <;> simp only [switchBranch, onto, branches]
  · exact carries_fail
  · exact running_carries

theorem closeBranch_carries : (m.onto below).closeBranch.Carries below m.closeBranch := by
  rcases branches : m.conditions with _ | ⟨c, cs⟩ <;> simp only [closeBranch, onto, branches]
  · exact carries_fail
  · exact running_carries

/-- An item that is found by its depth lies above the items underneath, and so does its place. -/
theorem fetch_carries {move : Bool} :
    ((m.onto below).fetch env move).Carries below (m.fetch env move) := by
  rcases items : m.stack with _ | ⟨top, _ | ⟨next, rest⟩⟩
  · simp only [fetch, items]
    exact carries_fail
  · simp only [fetch, items]
    exact carries_fail
  simp only [fetch, onto_stack, items, List.cons_append]
  refine readNumber_carries fun value => guard_carries fun _ => ?_
  generalize (ScriptNum.clamp32 value).toNat = depth
  rcases found : (next :: rest)[depth]? with _ | item
  · exact carries_fail
  have inside : depth < (next :: rest).length := (List.getElem?_eq_some_iff.1 found).1
  have found' : (next :: (rest ++ below))[depth]? = some item := by
    rw [← List.cons_append, List.getElem?_append_left inside, found]
  rw [found']
  cases move with
  | false => exact running_carries
  | true =>
    have moved :
        (next :: (rest ++ below)).eraseIdx depth = (next :: rest).eraseIdx depth ++ below := by
      rw [← List.cons_append, List.eraseIdx_append_of_lt_length inside]
    simp only [if_true, moved]
    exact running_carries

/-- A unary operation needs one item and looks at no more. -/
theorem unary_carries {f : Unary} : ((m.onto below).unary env f).Carries below (m.unary env f) := by
  rcases items : m.stack with _ | ⟨a, rest⟩
  · simp only [unary, items]
    exact carries_fail
  · simp only [unary, onto_stack, items, List.cons_append]
    refine readNumber_carries fun value => ?_
    rcases signed64 (f.apply value) with fault | result
    · exact carries_halt
    · exact running_carries

theorem binary_carries {f : Binary} {verify : Bool} :
    ((m.onto below).binary env f verify).Carries below (m.binary env f verify) := by
  rcases items : m.stack with _ | ⟨b, _ | ⟨a, rest⟩⟩
  · simp only [binary, items]
    exact carries_fail
  · simp only [binary, items]
    exact carries_fail
  simp only [binary, onto_stack, items, List.cons_append]
  refine readNumber_carries fun first => readNumber_carries fun second => ?_
  rcases signed64 (f.apply first second) with fault | result
  · exact carries_halt
  · dsimp only
    split
    next => exact conclude_carries rfl
    next => exact running_carries

theorem within_carries : ((m.onto below).within env).Carries below (m.within env) := by
  rcases items : m.stack with _ | ⟨high, _ | ⟨low, _ | ⟨x, rest⟩⟩⟩
  · simp only [within, items]
    exact carries_fail
  · simp only [within, items]
    exact carries_fail
  · simp only [within, items]
    exact carries_fail
  simp only [within, onto_stack, items, List.cons_append]
  refine readNumber_carries fun _ => readNumber_carries fun _ => readNumber_carries fun _ => ?_
  exact conclude_carries rfl

/-! ### Signatures -/

/-- A signature check needs two items and looks at no more; the code it signs is the same. -/
theorem checkSig_carries {verify : Bool} :
    ((m.onto below).checkSig env verify).Carries below (m.checkSig env verify) := by
  rcases items : m.stack with _ | ⟨key, _ | ⟨sig, rest⟩⟩
  · simp only [checkSig, items]
    exact carries_fail
  · simp only [checkSig, items]
    exact carries_fail
  have same : (m.onto below).signedCode env [sig] = m.signedCode env [sig] := rfl
  have journal : (m.onto below).journal = m.journal := rfl
  simp only [checkSig, onto_stack, items, List.cons_append, same, journal]
  rcases m.signedCode env [sig] with fault | code
  · exact carries_halt
  dsimp only
  rcases env.flags.checkForms env.version sig key with stop | _
  · exact carries_halt
  dsimp only
  rcases m.journal.ask env.checker (.signature sig key code env.version)
    with ⟨_ | _ | text, journal⟩
  · exact conclude_carries rfl
  · exact guard_carries fun _ => conclude_carries rfl
  · exact carries_halt

theorem settleMultiSig_carries {verify success : Bool} {taken : Nat} {sigs : List Bytes} :
    (settleMultiSig env verify taken sigs success (m.onto below)).Carries below
      (settleMultiSig env verify taken sigs success m) := by
  rw [settleMultiSig, settleMultiSig]
  refine guard_carries fun _ => ?_
  rcases left : m.stack.drop taken with _ | ⟨dummy, rest⟩
  · exact carries_fail
  have left' : (m.onto below).stack.drop taken = dummy :: (rest ++ below) :=
    (drop_append_of_drop_eq_cons left).1
  simp only [left']
  exact guard_carries fun _ => conclude_carries rfl

/-- The counts, the keys, the signatures and the extra item are found above the items underneath. -/
theorem checkMultiSig_carries {verify : Bool} :
    ((m.onto below).checkMultiSig env verify).Carries below (m.checkMultiSig env verify) := by
  rcases items : m.stack with _ | ⟨keyCount, belowCount⟩
  · simp only [checkMultiSig, items]
    exact carries_fail
  simp only [checkMultiSig, onto_stack, items, List.cons_append]
  -- a count that cannot be read stops both machines alike
  rcases readCount env Limit.keys keyCount with stop | _ | k
  · exact carries_halt
  · exact carries_fail
  refine guard_carries fun _ => ?_
  rcases left : belowCount.drop k with _ | ⟨sigCount, belowKeys⟩
  · exact carries_fail
  obtain ⟨left', keys⟩ := @drop_append_of_drop_eq_cons _ _ below _ _ _ left
  simp only [left', keys]
  rcases readCount env k sigCount with stop | _ | s
  · exact carries_halt
  · exact carries_fail
  dsimp only
  by_cases few : belowKeys.length < s + 1
  · rw [if_pos few]
    exact carries_fail
  -- with items underneath there are still enough, and the signatures are the same ones
  have enough : ¬(belowKeys ++ below).length < s + 1 := by
    rw [List.length_append]
    omega
  have sigs : (belowKeys ++ below).take s = belowKeys.take s :=
    List.take_append_of_le_length (by omega)
  rw [if_neg few, if_neg enough, sigs]
  rcases signed : ({ m with stack := keyCount :: belowCount, opCount := m.opCount + k } :
    Machine).signedCode env (belowKeys.take s) with fault | code
  · exact carries_halt
  have signed' : ({ m.onto below with
      stack := keyCount :: (belowCount ++ below)
      opCount := (m.onto below).opCount + k } : Machine).signedCode env (belowKeys.take s) =
        .ok code := signed
  rw [signed']
  dsimp only [onto_journal]
  -- keys and signatures are tried in the same order with the same journal
  rcases matchKeys env code (belowKeys.take s) (belowCount.take k) m.journal
    with ⟨stop | success, journal⟩
  · exact carries_halt
  · exact @settleMultiSig_carries env
      { m with stack := keyCount :: belowCount, opCount := m.opCount + k, journal } below _ _ _ _

/-! ## Operations, steps and runs -/

/-- **One operation** that does not look at the number of items. -/
theorem perform_carries {op : Operation} (other : op ≠ .arrange .depth) :
    ((m.onto below).perform env op).Carries below (m.perform env op) := by
  cases op <;> simp only [perform]
  case number n => exact running_carries
  case nop => exact running_carries
  case reservedNop => exact reserved_carries
  case checkLockTime =>
    split
    next => exact checkLockTime_carries
    next => exact reserved_carries
  case checkSequence =>
    split
    next => exact checkSequence_carries
    next => exact reserved_carries
  case checkColdStake =>
    split
    next => exact checkColdStake_carries
    next => exact reserved_carries
  case openBranch inverted => exact openBranch_carries
  case switchBranch => exact switchBranch_carries
  case closeBranch => exact closeBranch_carries
  case forbidden => exact carries_fail
  -- for a single item: what it is, is not changed by what lies underneath
  case verify =>
    rcases items : m.stack with _ | ⟨top, rest⟩
    · exact carries_fail
    · simp only [onto, items, List.cons_append]
      split
      next => exact running_carries
      next => exact carries_fail
  case abort => exact carries_fail
  case toAlt =>
    rcases items : m.stack with _ | ⟨top, rest⟩
    · exact carries_fail
    · simp only [onto, items, List.cons_append]
      exact running_carries
  case fromAlt =>
    rcases items : m.alt with _ | ⟨top, rest⟩
    · exact carries_fail
    · simp only [onto, items]
      exact running_carries
  -- every arrangement but the one that counts the items works on a front part of the stack
  case arrange a =>
    rcases applied : a.apply m.stack with _ | stack
    · exact carries_fail
    · have applied' : a.apply (m.onto below).stack = some (stack ++ below) :=
        Arrange.apply_append (fun same => other (congrArg Operation.arrange same)) applied below
      rw [applied']
      exact running_carries
  case fetch move => exact fetch_carries
  case equal verify =>
    rcases items : m.stack with _ | ⟨b, _ | ⟨a, rest⟩⟩
    · exact carries_fail
    · exact carries_fail
    · simp only [onto, items, List.cons_append]
      exact conclude_carries rfl
  case unary f => exact unary_carries
  case binary f verify => exact binary_carries
  case within => exact within_carries
  case hash f =>
    rcases items : m.stack with _ | ⟨top, rest⟩
    · exact carries_fail
    · simp only [onto, items, List.cons_append]
      exact running_carries
  case codeSeparator => exact running_carries
  case checkSig verify => exact checkSig_carries
  case checkMultiSig verify => exact checkMultiSig_carries
  case invalid => exact carries_fail

/-- **One instruction** with items underneath. -/
theorem execute_carries {i : Instruction} (other : i ≠ .depth) :
    ((m.onto below).execute env i).Carries below (m.execute env i) := by
  have same : (m.onto below).executing = m.executing := rfl
  rcases i with ⟨op, _ | data⟩ <;> simp only [execute, same]
  · have plain : Operation.ofOpcode op ≠ .arrange .depth := by
      intro depth
      rw [Operation.ofOpcode_eq_depth_iff] at depth
      exact other (by rw [Instruction.depth, depth])
    split
    next => exact perform_carries plain
    next => exact running_carries
  · split
    next => exact guard_carries fun _ => running_carries
    next => exact running_carries

/-- **One instruction** that does not push the number of items: it carries the items underneath
along, if there is room for them in the machine that it leads to. -/
theorem step_onto {i : Instruction} {m' : Machine} (other : i ≠ .depth)
    (ran : m.step env i = .running m') :
    (m.onto below).step env i = checkStackSize (.running (m'.onto below)) := by
  obtain ⟨short, few, enabled, done, -⟩ := step_running_iff.1 ran
  have carried : ((m.count i).onto below).execute env i = .running (m'.onto below) :=
    execute_carries other m' done
  exact (step_of_checks (m := m.onto below) short few enabled).trans
    (congrArg checkStackSize carried)

/-- There is room for the items of both stacks. -/
def Fits (m : Machine) : Prop := m.stack.length + m.alt.length ≤ Limit.stackItems

theorem checkStackSize_of_fits (fits : m.Fits) : checkStackSize (.running m) = .running m := by
  rw [checkStackSize, if_neg (Nat.not_lt.2 fits)]

theorem checkStackSize_of_not_fits (full : ¬m.Fits) :
    checkStackSize (.running m) = .halted (.failed .stackSize) m := by
  rw [checkStackSize, if_pos (Nat.lt_of_not_le full)]
  rfl

/-- **All instructions**, by induction on them: either every machine that the run comes to has room
for the items underneath, and they are carried along to the end, or the run stops at one that has
not. -/
theorem run_onto {is : List Instruction} {m' : Machine} (plain : ∀ i ∈ is, i ≠ .depth)
    (ran : run env is m = .running m') (below : Stack Bytes) :
    (run env is (m.onto below) = .running (m'.onto below) ∧
      ∀ taken n, taken ≠ [] → taken <+: is → run env taken m = .running n →
      (n.onto below).Fits) ∨
    ∃ taken n, taken ≠ [] ∧ taken <+: is ∧ run env taken m = .running n ∧
      ¬(n.onto below).Fits ∧ run env is (m.onto below) = .halted (.failed .stackSize)
        (n.onto below) := by
  induction is generalizing m with
  | nil =>
    obtain rfl := Outcome.running.inj ran
    refine .inl ⟨rfl, fun taken n some front => ?_⟩
    exact absurd (List.prefix_nil.1 front) some
  | cons i is ih =>
    obtain ⟨next, stepped, rest⟩ := run_cons_inv ran
    obtain ⟨other, plain⟩ := List.forall_mem_cons.1 plain
    have stepped' := @step_onto env m below i next other stepped
    by_cases fits : (next.onto below).Fits
    · rw [checkStackSize_of_fits fits] at stepped'
      rw [run_cons_of_step stepped']
      -- the next machine has room; what the others come to is known by induction
      rcases ih plain rest with ⟨ran', room⟩ | ⟨taken, n, -, ⟨behind, front⟩, ran',
        full, stopped⟩
      · refine .inl ⟨ran', fun taken n some front reached => ?_⟩
        -- a front part is the first instruction alone, or goes on with the others
        rcases taken with _ | ⟨j, taken⟩
        · exact absurd rfl some
        obtain ⟨rfl, behind⟩ := List.cons_prefix_cons.1 front
        rw [run_cons_of_step stepped] at reached
        rcases taken with _ | ⟨k, taken⟩
        · obtain rfl := Outcome.running.inj reached
          exact fits
        · exact room _ n (List.cons_ne_nil k taken) behind reached
      · refine .inr ⟨i :: taken, n, List.cons_ne_nil i taken, ⟨behind, ?_⟩, ?_,
          full, stopped⟩
        · rw [List.cons_append, front]
        · rw [run_cons_of_step stepped, ran']
    · rw [checkStackSize_of_not_fits fits] at stepped'
      -- there is no room behind the first instruction already
      refine .inr ⟨[i], next, List.cons_ne_nil i [], ⟨is, rfl⟩, ?_, fits, ?_⟩
      · rw [run_singleton, stepped]
      · rw [run, stepped']

end Machine

namespace Script

open Machine (Fits)

variable {flags : Flags} {checker : Checker} {version : SigVersion} {script : Bytes}
  {stack : Stack Bytes}
  {journal : Journal} {m n : Machine} {taken : List Instruction}

/-- What an evaluation that ends well has asked when it comes to a machine is the first part of what
it has asked in the end. -/
theorem Reaches.calls_prefix {env : Env} (h : Reaches env stack journal taken n)
    (ended : evaluate env.flags env.checker env.version env.script stack journal = .running m) :
    n.journal.calls <+: m.journal.calls := by
  obtain ⟨rest, -, behind⟩ := h.evaluate_eq
  have left := congrArg Outcome.machine (behind.symm.trans ended)
  rw [Machine.finish_machine] at left
  rw [← show _ = m from left]
  exact Machine.run_calls_prefix

/-- **An evaluation** that ends well, of a script that does not push the number of items, from a
stack with more items underneath. -/
theorem evaluate_onto (plain : ∀ i ∈ instructions script, i ≠ .depth)
    (ended : evaluate flags checker version script stack journal = .running m)
    (below : Stack Bytes) :
    let env : Env := ⟨flags, checker, version, script⟩
    (evaluate flags checker version script (stack ++ below) journal = .running (m.onto below) ∧
      ∀ taken n, taken ≠ [] → Reaches env stack journal taken n → (n.onto below).Fits) ∨
    ∃ taken n, taken ≠ [] ∧ Reaches env stack journal taken n ∧ ¬(n.onto below).Fits ∧
      evaluate flags checker version script (stack ++ below) journal =
        .halted (.failed .stackSize) (n.onto below) := by
  intro env
  have size := (reaches_of_evaluate ended).size
  obtain ⟨ran, whole, closed⟩ := evaluate_inv ended
  have carried := Machine.run_onto plain ran below
  rcases carried with ⟨ran', room⟩ | ⟨taken, n, some, front, reached, full, stopped⟩
  · refine .inl ⟨evaluate_of_run size ran' whole closed, fun taken n some reached => ?_⟩
    exact room taken n some reached.front reached.ran
  · refine .inr ⟨taken, n, some, ⟨size, front, reached⟩, full, ?_⟩
    rw [evaluate, if_neg (Nat.not_lt.2 size)]
    exact congrArg (Machine.finish (tail script)) stopped

end Script

namespace Context

/-- **Items underneath.** Take any flags, checker, version and script without the instruction that
pushes the number of items. Say that its evaluation on the stack of a context ends well, and put any
items underneath that stack. Then one of two things happens.

* The evaluation ends well, with the same items underneath the same stack as before, and asks the
  same questions in the same order. Both stacks together have had room for the items underneath
  after every instruction.
* It fails because of the number of items, behind an instruction after which there is no room for
  the items underneath. They are still underneath the stack, and the questions asked up to there are
  the first ones of the others. -/
theorem carries_items_underneath {ctx : Context} {checker : Checker} {version : SigVersion}
    {script : Bytes} {journal : Journal}
    (plain : ∀ i ∈ Script.instructions script, i ≠ .depth)
    (accepted : (ctx.evalScript checker version script journal).1.accepts = true)
    (below : Stack Bytes) :
    let env : Env := ⟨ctx.flags, checker, version, script⟩
    let deep : Context := { ctx with stack := ctx.stack ++ below }
    let r := ctx.evalScript checker version script journal
    let r' := deep.evalScript checker version script journal
    (r'.1 = { r.1 with stack := r.1.stack ++ below } ∧ r'.2 = r.2 ∧
      ∀ taken m, taken ≠ [] → Script.Reaches env ctx.stack journal taken m →
        m.stack.length + below.length + m.alt.length ≤ Limit.stackItems) ∨
    (r'.1.error = .stackSize ∧ r'.1.unexpected = none ∧ r'.2.calls <+: r.2.calls ∧
      ∃ taken m, taken ≠ [] ∧ Script.Reaches env ctx.stack journal taken m ∧
        Limit.stackItems < m.stack.length + below.length + m.alt.length ∧
        r'.1.stack = m.stack ++ below) := by
  obtain ⟨m, ended⟩ := evalScript_accepts_iff.1 accepted
  -- room is asked for the three parts together
  have room (n : Machine) : (n.onto below).Fits ↔
      n.stack.length + below.length + n.alt.length ≤ Limit.stackItems := by
    rw [Machine.Fits, Machine.onto_stack, List.length_append]
    rfl
  rcases Script.evaluate_onto plain ended below with ⟨ended', fits⟩ | ⟨taken, n, some,
    reached, full, stopped⟩
  · refine .inl ⟨?_, ?_, fun taken n some reached => (room n).1 (fits taken n some reached)⟩
    · simp only [evalScript, ended, ended']
      rfl
    · simp only [evalScript, ended, ended']
      rfl
  · have first := reached.calls_prefix ended
    rw [room, Nat.not_le] at full
    simp only [evalScript, ended, stopped]
    exact .inr ⟨rfl, rfl, first, taken, n, some, reached, full, rfl⟩

/-- An item is rolled up from underneath another one and checked as a signature, with two more items
underneath. -/
theorem rolled_up_above_two :
    let script : Bytes := [0x51, 0x7a, 0xac]
    let ctx : Context := { flags := ⟨0⟩, stack := [[0xaa], [0xbb]] }
    let deep : Context := { flags := ⟨0⟩, stack := [[0xaa], [0xbb], [0xcc], [0xdd]] }
    (∀ i ∈ Script.instructions script, i ≠ .depth) ∧
    (ctx.evalScript .base .legacy script).1.accepts = true ∧
    (deep.evalScript .base .legacy script).1.stack = [[], [0xcc], [0xdd]] ∧
    (deep.evalScript .base .legacy script).2 = (ctx.evalScript .base .legacy script).2 := by
  intro script ctx deep
  have plain : ∀ i ∈ Script.instructions script, i ≠ .depth := by decide +kernel
  have accepted : (ctx.evalScript .base .legacy script).1.accepts = true := by decide +kernel
  have left : (ctx.evalScript .base .legacy script).1.stack = [[]] := by decide +kernel
  have passes : (deep.evalScript .base .legacy script).1.error ≠ .stackSize := by decide +kernel
  refine ⟨plain, accepted, ?_⟩
  rcases carries_items_underneath plain accepted [[0xcc], [0xdd]]
    with ⟨after, asked, -⟩ | ⟨full, -⟩
  · refine ⟨(congrArg Context.stack after).trans ?_, asked⟩
    rw [left]
    rfl
  · exact absurd full passes

/-- The number of items gives away what is underneath. -/
example :
    let count : Bytes := [0x74]
    (({ flags := ⟨0⟩ } : Context).evalScript .base .legacy count).1.stack = [[]] ∧
    (({ flags := ⟨0⟩, stack := [[0xcc]] } : Context).evalScript .base .legacy count).1.stack =
      [[1], [0xcc]] := by
  decide +kernel

end Context

end BlockRules
