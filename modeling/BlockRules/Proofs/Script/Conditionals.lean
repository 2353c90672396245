import Mathlib
import BlockRules.Proofs.Script.Frames

/-!
# Conditionals

The machine knows no blocks. It keeps a list of truth values, one for each open conditional, and
three kinds of instructions that change the list; everything else is skipped while one of the values
is false. This module says that the list does what blocks do.

* **grammar** — `Nested`: instructions whose conditionals are opened and closed in pairs. A flag
  says whether they form the inside of a conditional, where the branch may be switched;
* **a skipped instruction** — `Machine.step_skipped`: it is counted, and that is all. What can go
  wrong at it is listed there as well;
* **nested instructions** — by induction on the grammar, they leave the conditionals around them
  alone (`Nested.conditions`), and in a branch that is skipped none of them is executed and nothing
  else is changed (`Nested.skips`);
* **a conditional** — `Machine.run_conditional`: exactly one of its two branches is executed;
* **scripts** — `Machine.closes_of_run`: a run that leaves no conditional open has run nested
  instructions.
-/

namespace BlockRules

/-! ## Grammar -/

namespace Instruction

/-- Opens a conditional that starts with a branch for a true item, or for a false one if
inverted. -/
def opens (inverted : Bool) : Instruction := ⟨if inverted then 0x64 else 0x63, none⟩

/-- Goes over to the other branch. -/
def switch : Instruction := ⟨0x67, none⟩

/-- Closes a conditional. -/
def close : Instruction := ⟨0x68, none⟩

/-- One of the instructions that change the open conditionals. -/
def IsBranching (i : Instruction) : Prop :=
  i = opens false ∨ i = opens true ∨ i = switch ∨ i = close

instance (i : Instruction) : Decidable i.IsBranching := inferInstanceAs (Decidable (_ ∨ _))

end Instruction

/-- Instructions whose conditionals are opened and closed in pairs. Inside of a conditional, the
branch may be switched any number of times. -/
inductive Nested : (inside : Bool) → List Instruction → Prop
  | nil {inside} : Nested inside []
  | single {inside i is} : ¬i.IsBranching → Nested inside is → Nested inside (i :: is)
  | switch {is} : Nested true is → Nested true (.switch :: is)
  | block {inside inverted body is} :
      Nested true body → Nested inside is →
      Nested inside (.opens inverted :: body ++ .close :: is)

/-! ## Opcodes -/

namespace Operation

theorem branches_ofOpcode : ∀ {op : UInt8}, (ofOpcode op).branches = true →
    op = 0x63 ∨ op = 0x64 ∨ op = 0x67 ∨ op = 0x68 := by
  decide +kernel

theorem opcode_of_forbidden :
    ∀ {op : UInt8}, ofOpcode op = .forbidden → op = 0x65 ∨ op = 0x66 := by
  decide +kernel

/-- What runs in a skipped branch either branches itself or is forbidden anywhere. -/
theorem branches_or_forbidden {op : Operation} (runs : op.runsWhenSkipped = true) :
    op.branches = true ∨ op = .forbidden := by
  cases op <;> simp [runsWhenSkipped, branches] at runs ⊢

theorem ofOpcode_opens (inverted : Bool) :
    ofOpcode (Instruction.opens inverted).opcode = .openBranch inverted := by
  cases inverted <;> decide

theorem ofOpcode_switch : ofOpcode Instruction.switch.opcode = .switchBranch := by decide

theorem ofOpcode_close : ofOpcode Instruction.close.opcode = .closeBranch := by decide

end Operation

/-- An instruction that is not branching is no branch for the machine. -/
theorem Instruction.branches_of_not_isBranching {i : Instruction} (plain : ¬i.IsBranching)
    (none : i.data = none) : (Operation.ofOpcode i.opcode).branches = false := by
  rw [Bool.eq_false_iff]
  intro branch
  obtain ⟨op, data⟩ := i
  obtain rfl : data = .none := none
  rcases Operation.branches_ofOpcode branch with rfl | rfl | rfl | rfl <;> exact plain (by decide)

namespace Machine

variable {env : Env} {m n m' : Machine} {i : Instruction} {is js : List Instruction}

/-- Nothing has changed between the machines but the open conditionals, the number of operations and
the position. -/
structure Untouched (m m' : Machine) : Prop where
  stack : m'.stack = m.stack
  alt : m'.alt = m.alt
  codeStart : m'.codeStart = m.codeStart
  journal : m'.journal = m.journal

theorem Untouched.refl (m : Machine) : m.Untouched m := ⟨rfl, rfl, rfl, rfl⟩

theorem Untouched.trans (h : m.Untouched n) (h' : n.Untouched m') : m.Untouched m' :=
  ⟨h'.stack.trans h.stack, h'.alt.trans h.alt, h'.codeStart.trans h.codeStart,
    h'.journal.trans h.journal⟩

/-- Counting an instruction touches nothing, and neither does a change of the conditionals. -/
theorem untouched_count (i : Instruction) (m : Machine) (conditions : List Bool) :
    m.Untouched { m.count i with conditions } := ⟨rfl, rfl, rfl, rfl⟩

/-- A machine skips exactly while one of the open branches is not taken. -/
theorem executing_eq_false_iff : m.executing = false ↔ false ∈ m.conditions := by
  simp [executing, List.all_eq_false]

/-! ## Single steps -/

/-- What stops a machine at an instruction that it skips: the checks that every instruction
undergoes, and an opcode that is forbidden everywhere. -/
def StopsWhenSkipped (m : Machine) (i : Instruction) (stop : Stop) : Prop :=
  stop = .failed .pushSize ∨ stop = .failed .opCount ∨ stop = .failed .disabledOpCode ∨
    stop = .failed .badOpCode ∧ (i = ⟨0x65, none⟩ ∨ i = ⟨0x66, none⟩) ∨
    stop = .failed .stackSize ∧ Limit.stackItems < m.stack.length + m.alt.length

/-- A skipped instruction changes nothing, except that two opcodes fail wherever they stand. -/
theorem execute_skipped (skipped : m.executing = false) (plain : ¬i.IsBranching) :
    m.execute env i = .running m ∨
      m.execute env i = m.fail .badOpCode ∧ (i = ⟨0x65, none⟩ ∨ i = ⟨0x66, none⟩) := by
  rw [execute, skipped]
  rcases i with ⟨op, _ | data⟩ <;> simp only [Bool.false_or]
  · rcases runs : (Operation.ofOpcode op).runsWhenSkipped with _ | _
    · exact .inl rfl
    · have branches := Instruction.branches_of_not_isBranching plain rfl
      rcases Operation.branches_or_forbidden runs with branch | forbidden
      · rw [branch] at branches
        cases branches
      · rw [forbidden]
        refine .inr ⟨rfl, ?_⟩
        rcases Operation.opcode_of_forbidden forbidden with rfl | rfl
        · exact .inl rfl
        · exact .inr rfl
  · exact .inl rfl

/-- **A skipped instruction** that is not branching is counted, and nothing else is done. -/
theorem step_skipped (skipped : m.executing = false) (plain : ¬i.IsBranching) :
    m.step env i = .running (m.count i) ∨
      ∃ stop, m.step env i = .halted stop (m.count i) ∧ m.StopsWhenSkipped i stop := by
  rw [step]
  split
  next => exact .inr ⟨_, rfl, .inl rfl⟩
  next =>
  split
  next => exact .inr ⟨_, rfl, .inr (.inl rfl)⟩
  next =>
  split
  next => exact .inr ⟨_, rfl, .inr (.inr (.inl rfl))⟩
  next =>
  have counted : (m.count i).executing = false := skipped
  rcases @execute_skipped env (m.count i) i counted plain with done | ⟨done, forbidden⟩ <;>
    rw [done]
  · rw [checkStackSize]
    split
    next many => exact .inr ⟨_, rfl, .inr (.inr (.inr (.inr ⟨rfl, many⟩)))⟩
    next => exact .inl rfl
  · exact .inr ⟨_, rfl, .inr (.inr (.inr (.inl ⟨rfl, forbidden⟩)))⟩

/-- A branching instruction is carried out whether its branch is executed or not. -/
theorem step_branching {op : Operation} (ran : m.step env i = .running m') (plain : i.data = none)
    (kind : Operation.ofOpcode i.opcode = op) (runs : op.runsWhenSkipped = true) :
    (m.count i).perform env op = .running m' := by
  have done := step_inv ran
  rw [execute, plain] at done
  simpa only [kind, runs, Bool.or_true, if_true] using done

/-- What opening a conditional comes to. -/
theorem step_opens {inverted : Bool} (ran : m.step env (.opens inverted) = .running m') :
    (m.executing = true ∧ ∃ top rest, m.stack = top :: rest ∧
      m' = { m.count (.opens inverted) with
        stack := rest, conditions := (truthy top != inverted) :: m.conditions }) ∨
      m.executing = false ∧
        m' = { m.count (.opens inverted) with conditions := false :: m.conditions } := by
  have done := step_branching ran rfl (Operation.ofOpcode_opens inverted) rfl
  rw [perform, openBranch] at done
  have same : (m.count (.opens inverted)).executing = m.executing := rfl
  rcases active : m.executing with _ | _ <;> rw [same, active] at done
  · exact .inr ⟨rfl, (Outcome.running.inj done).symm⟩
  · refine .inl ⟨rfl, ?_⟩
    rw [if_pos rfl] at done
    split at done
    next => cases done
    next top rest items =>
      split at done
      next => cases done
      next => exact ⟨top, rest, items, (Outcome.running.inj done).symm⟩

/-- A switch turns over the innermost branch, and there is one. -/
theorem step_switch (ran : m.step env .switch = .running m') :
    ∃ c cs, m.conditions = c :: cs ∧
      m' = { m.count .switch with conditions := (!c) :: cs } := by
  have done := step_branching ran rfl Operation.ofOpcode_switch rfl
  rw [perform, switchBranch] at done
  split at done
  next => cases done
  next c cs opened => exact ⟨c, cs, opened, (Outcome.running.inj done).symm⟩

/-- A close leaves the innermost branch, and there is one. -/
theorem step_close (ran : m.step env .close = .running m') :
    ∃ c cs, m.conditions = c :: cs ∧ m' = { m.count .close with conditions := cs } := by
  have done := step_branching ran rfl Operation.ofOpcode_close rfl
  rw [perform, closeBranch] at done
  split at done
  next => cases done
  next c cs opened => exact ⟨c, cs, opened, (Outcome.running.inj done).symm⟩

/-! ## Runs -/

/-- No instruction of a run is executed. -/
def Skips (env : Env) (is : List Instruction) (m : Machine) : Prop :=
  ∀ before i behind n, is = before ++ i :: behind → run env before m = .running n →
    n.executing = false

/-- Every instruction of a run is executed that does not stand inside of a conditional of it. -/
def Executes (env : Env) (is : List Instruction) (m : Machine) : Prop :=
  ∀ before i behind, is = before ++ i :: behind → Nested false before →
    ∃ n, run env before m = .running n ∧ n.executing = true

theorem skips_nil : Skips env [] m := by
  rintro before i behind n split
  exact absurd split.symm (List.append_ne_nil_of_right_ne_nil before (List.cons_ne_nil i behind))

theorem skips_cons (skipped : m.executing = false) (stepped : m.step env i = .running n)
    (rest : Skips env is n) : Skips env (i :: is) m := by
  rintro (_ | ⟨j, before⟩) k behind n' split ran
  · obtain rfl := Outcome.running.inj ran
    exact skipped
  · obtain ⟨rfl, left⟩ := List.cons.inj split
    rw [run, stepped] at ran
    exact rest before k behind n' left ran

theorem skips_append (first : Skips env is m) (ran : run env is m = .running n)
    (rest : Skips env js n) :
    Skips env (is ++ js) m := by
  rintro before i behind n' split front
  rcases List.append_eq_append_iff.1 split with ⟨passed, rfl, others⟩ | ⟨_ | ⟨j, others⟩,
    rfl, left⟩
  · rw [run_append, ran] at front
    exact rest passed i behind n' others front
  · rw [List.append_nil] at ran
    obtain rfl := Outcome.running.inj (ran.symm.trans front)
    exact rest [] i behind n left.symm rfl
  · obtain ⟨rfl, -⟩ := List.cons.inj left
    exact first before i others n' rfl front

end Machine

namespace Nested

open Machine (Untouched Skips Executes)

variable {env : Env} {m m' : Machine} {inside : Bool} {is : List Instruction}

/-- **Nested instructions leave the conditionals around them alone.** Inside of a conditional they
may change its value. -/
theorem conditions (nested : Nested inside is) (ran : Machine.run env is m = .running m') :
    (inside = false → m'.conditions = m.conditions) ∧
      ∀ c cs, m.conditions = c :: cs → ∃ c', m'.conditions = c' :: cs := by
  induction nested generalizing m m' with
  | nil =>
    obtain rfl := Outcome.running.inj ran
    exact ⟨fun _ => rfl, fun c cs opened => ⟨c, opened⟩⟩
  | @single inside i is plain _ ih =>
    obtain ⟨n, stepped, rest⟩ := Machine.run_cons_inv ran
    have kept := @Machine.step_conditions env m i (Instruction.branches_of_not_isBranching plain)
    rw [stepped] at kept
    rw [← show n.conditions = m.conditions from kept]
    exact ih rest
  | switch _ ih =>
    obtain ⟨n, stepped, rest⟩ := Machine.run_cons_inv ran
    obtain ⟨c, cs, opened, rfl⟩ := Machine.step_switch stepped
    refine ⟨nofun, fun c' cs' opened' => ?_⟩
    obtain ⟨rfl, rfl⟩ := List.cons.inj (opened.symm.trans opened')
    exact (ih rest).2 _ cs rfl
  | @block inside inverted body is _ _ ihBody ih =>
    obtain ⟨n₁, stepped, ran⟩ := Machine.run_cons_inv ran
    obtain ⟨n₂, first, ran⟩ := Machine.run_append_inv ran
    obtain ⟨n₃, closed, rest⟩ := Machine.run_cons_inv ran
    -- the body may change the value on top, which is taken off again at the end
    obtain ⟨x, opened⟩ : ∃ x, n₁.conditions = x :: m.conditions := by
      rcases Machine.step_opens stepped with ⟨-, top, below, -, rfl⟩ | ⟨-, rfl⟩ <;>
        exact ⟨_, rfl⟩
    obtain ⟨x', left⟩ := (ihBody first).2 x _ opened
    obtain ⟨c, cs, here, rfl⟩ := Machine.step_close closed
    obtain ⟨rfl, rfl⟩ := List.cons.inj (here.symm.trans left)
    -- with the value on top gone, the conditions around are all that is left
    have kept := ih rest
    exact kept

/-- The conditionals around nested instructions. -/
def around (inside : Bool) (conditions : List Bool) : List Bool :=
  if inside then conditions.tail else conditions

theorem mem_of_mem_around {c : Bool} {conditions : List Bool}
    (mem : c ∈ around inside conditions) :
    c ∈ conditions := by
  cases inside
  · exact mem
  · exact List.mem_of_mem_tail mem

/-- **Nested instructions in a skipped branch.** None of them is executed, whether their own
conditionals are true or false, and nothing is changed but the count of operations. -/
theorem skips (nested : Nested inside is) (ran : Machine.run env is m = .running m')
    (dead : false ∈ around inside m.conditions) : Skips env is m ∧ m.Untouched m' := by
  induction nested generalizing m m' with
  | nil =>
    obtain rfl := Outcome.running.inj ran
    exact ⟨Machine.skips_nil, .refl m⟩
  | @single inside i is plain _ ih =>
    have skipped := Machine.executing_eq_false_iff.2 (mem_of_mem_around dead)
    obtain ⟨n, stepped, rest⟩ := Machine.run_cons_inv ran
    rcases @Machine.step_skipped env m i skipped plain with done | ⟨stop, done, -⟩
    · obtain rfl := Outcome.running.inj (stepped.symm.trans done)
      obtain ⟨behind, untouched⟩ := ih rest dead
      exact ⟨Machine.skips_cons skipped stepped behind,
        (Machine.untouched_count i m m.conditions).trans untouched⟩
    · rw [done] at stepped
      cases stepped
  | switch _ ih =>
    have skipped := Machine.executing_eq_false_iff.2 (mem_of_mem_around dead)
    obtain ⟨n, stepped, rest⟩ := Machine.run_cons_inv ran
    obtain ⟨c, cs, opened, rfl⟩ := Machine.step_switch stepped
    rw [opened] at dead
    obtain ⟨behind, untouched⟩ := ih rest dead
    exact ⟨Machine.skips_cons skipped stepped behind,
      (Machine.untouched_count ..).trans untouched⟩
  | @block inside inverted body is nestedBody _ ihBody ih =>
    have outer : false ∈ m.conditions := mem_of_mem_around dead
    have skipped := Machine.executing_eq_false_iff.2 outer
    obtain ⟨n₁, stepped, ran⟩ := Machine.run_cons_inv ran
    obtain ⟨n₂, first, ran⟩ := Machine.run_append_inv ran
    obtain ⟨n₃, closed, rest⟩ := Machine.run_cons_inv ran
    -- the conditional itself is false, and so is one around its inside
    obtain opened :
        n₁ = { m.count (.opens inverted) with conditions := false :: m.conditions } := by
      rcases Machine.step_opens stepped with ⟨active, -⟩ | ⟨-, opened⟩
      · rw [skipped] at active
        cases active
      · exact opened
    have inner : n₁.conditions = false :: m.conditions := by rw [opened]
    obtain ⟨within, untouched⟩ := ihBody first (by rw [inner]; exact outer)
    obtain ⟨x, left⟩ := (nestedBody.conditions first).2 false _ inner
    have still : n₂.executing = false :=
      Machine.executing_eq_false_iff.2 (left ▸ List.mem_cons_of_mem x outer)
    obtain ⟨c, cs, here, rfl⟩ := Machine.step_close closed
    obtain ⟨rfl, rfl⟩ := List.cons.inj (here.symm.trans left)
    obtain ⟨behind, untouched'⟩ := ih rest dead
    refine ⟨?_, ?_⟩
    · refine Machine.skips_cons skipped stepped (Machine.skips_append within first ?_)
      exact Machine.skips_cons still closed behind
    · have before : m.Untouched n₁ := opened ▸ Machine.untouched_count ..
      exact (before.trans untouched).trans ((Machine.untouched_count ..).trans untouched')

/-- In a branch that is executed, all instructions are that do not stand inside of a conditional. -/
theorem executes (executing : m.executing = true) (ran : Machine.run env is m = .running m') :
    Executes env is m := by
  rintro before i behind rfl nested
  obtain ⟨n, front, -⟩ := Machine.run_append_inv ran
  have same := (nested.conditions front).1 rfl
  refine ⟨n, front, ?_⟩
  rw [Machine.executing, same]
  exact executing

end Nested

namespace Machine

variable {env : Env} {m m' : Machine}

/-- A conditional with two branches takes an item, and executes the first branch if the item is
true, or, if it is inverted, false, and the second branch if not. In the other one no instruction is
executed, and nothing but the number of operations is changed. In the end, the open conditionals are
as they were before. -/
def RunsOneOf (env : Env) (inverted : Bool) (first second : List Instruction)
    (m m' : Machine) : Prop :=
  ∃ top rest m₁ m₂ m₃ m₄,
    (m.step env (.opens inverted) = .running m₁ ∧ run env first m₁ = .running m₂ ∧
      m₂.step env .switch = .running m₃ ∧ run env second m₃ = .running m₄ ∧
      m₄.step env .close = .running m') ∧
    (m.stack = top :: rest ∧ m₁ = { m.count (.opens inverted) with
      stack := rest, conditions := (truthy top != inverted) :: m.conditions }) ∧
    m'.conditions = m.conditions ∧
    if truthy top != inverted then
      Executes env first m₁ ∧ Skips env second m₃ ∧ m₃.Untouched m₄ ∧
        m₄.conditions = m₃.conditions
    else
      Skips env first m₁ ∧ m₁.Untouched m₂ ∧ m₂.conditions = m₁.conditions ∧
        Executes env second m₃

/-- **A conditional with two branches** that runs through executes exactly one of them. -/
theorem run_conditional {inverted : Bool} {first second : List Instruction}
    (nested : Nested false first)
    (nested' : Nested false second) (executing : m.executing = true)
    (ran : run env (.opens inverted :: first ++ .switch :: second ++ [.close]) m = .running m') :
    RunsOneOf env inverted first second m m' := by
  rw [List.append_assoc, List.cons_append] at ran
  obtain ⟨m₁, opened, ran⟩ := run_cons_inv ran
  obtain ⟨m₂, ran₁, ran⟩ := run_append_inv ran
  rw [List.cons_append] at ran
  obtain ⟨m₃, switched, ran⟩ := run_cons_inv ran
  obtain ⟨m₄, ran₂, closed⟩ := run_append_inv ran
  rw [run_singleton] at closed
  obtain ⟨-, top, rest, items, left₁⟩ :
    m.executing = true ∧ ∃ top rest, m.stack = top :: rest ∧
      m₁ = { m.count (.opens inverted) with
        stack := rest, conditions := (truthy top != inverted) :: m.conditions } := by
    rcases step_opens opened with opened | ⟨skipped, -⟩
    · exact opened
    · rw [executing] at skipped
      cases skipped
  -- both branches leave the value of the conditional as it was, and those around it
  have inside₁ : m₁.conditions = (truthy top != inverted) :: m.conditions := by rw [left₁]
  have inside₂ := (nested.conditions ran₁).1 rfl
  obtain ⟨c, cs, here, left₃⟩ := step_switch switched
  obtain ⟨rfl, rfl⟩ := List.cons.inj (here.symm.trans (inside₂.trans inside₁))
  have inside₃ : m₃.conditions = (!(truthy top != inverted)) :: m.conditions := by rw [left₃]
  have inside₄ := (nested'.conditions ran₂).1 rfl
  obtain ⟨c, cs, here, left'⟩ := step_close closed
  obtain ⟨rfl, rfl⟩ := List.cons.inj (here.symm.trans (inside₄.trans inside₃))
  have same : m'.conditions = m.conditions := by rw [left']
  refine ⟨top, rest, m₁, m₂, m₃, m₄, ⟨opened, ran₁, switched, ran₂, closed⟩,
    ⟨items, left₁⟩, same, ?_⟩
  have active {n : Machine} (inside : n.conditions = true :: m.conditions) :
      n.executing = true := by
    rw [Machine.executing, inside, List.all_cons]
    exact executing
  rcases chosen : truthy top != inverted with _ | _
  · rw [chosen] at inside₁
    rw [chosen, Bool.not_false] at inside₃
    have dead : false ∈ m₁.conditions := inside₁ ▸ List.mem_cons_self
    obtain ⟨skips, untouched⟩ := nested.skips ran₁ dead
    exact ⟨skips, untouched, inside₂, Nested.executes (active inside₃) ran₂⟩
  · rw [chosen] at inside₁
    rw [chosen, Bool.not_true] at inside₃
    have dead : false ∈ m₃.conditions := inside₃ ▸ List.mem_cons_self
    obtain ⟨skips, untouched⟩ := nested'.skips ran₂ dead
    exact ⟨Nested.executes (active inside₁) ran₁, skips, untouched, inside₄⟩

/-! ## Scripts -/

/-- Instructions that close so many conditionals more than they open. -/
def Closes : Nat → List Instruction → Prop
  | 0, is => Nested false is
  | k + 1, is => ∃ body rest, is = body ++ .close :: rest ∧ Nested true body ∧ Closes k rest

variable {i : Instruction} {is : List Instruction} {k : Nat}

theorem Closes.single (plain : ¬i.IsBranching) (h : Closes k is) : Closes k (i :: is) := by
  rcases k with _ | k
  · exact Nested.single plain h
  · obtain ⟨body, rest, rfl, nested, behind⟩ := h
    exact ⟨i :: body, rest, rfl, .single plain nested, behind⟩

theorem Closes.block {inverted : Bool} (h : Closes (k + 1) is) :
    Closes k (.opens inverted :: is) := by
  obtain ⟨body, rest, rfl, nested, behind⟩ := h
  rcases k with _ | k
  · exact Nested.block nested behind
  · obtain ⟨body', rest', rfl, nested', behind'⟩ := behind
    refine ⟨.opens inverted :: body ++ .close :: body', rest', ?_,
      .block nested nested', behind'⟩
    simp

/-- A run that ends without an open conditional closes those that were open at its start, and its
instructions are nested otherwise. By induction on the instructions, from the first one on. -/
theorem closes_of_run (ran : run env is m = .running m') (closed : m'.conditions = []) :
    Closes m.conditions.length is := by
  induction is generalizing m with
  | nil =>
    obtain rfl := Outcome.running.inj ran
    rw [closed]
    exact Nested.nil
  | cons i is ih =>
    obtain ⟨n, stepped, rest⟩ := run_cons_inv ran
    have behind := ih rest
    by_cases branching : i.IsBranching
    -- a conditional is one more to close, and with what closes it the instructions are a block
    · have opens {inverted : Bool} (same : i = .opens inverted) : Closes m.conditions.length
          (i :: is) := by
        have one : n.conditions.length = m.conditions.length + 1 := by
          rw [same] at stepped
          rcases step_opens stepped with ⟨-, top, below, -, rfl⟩ | ⟨-, rfl⟩ <;> rfl
        rw [one] at behind
        rw [same]
        exact behind.block
      rcases branching with same | same | rfl | rfl
      · exact opens same
      · exact opens same
      -- the second branch belongs to the conditional that is closed behind it
      · obtain ⟨c, cs, here, rfl⟩ := step_switch stepped
        obtain ⟨body, others, rfl, nested, closing⟩ := behind
        rw [here]
        exact ⟨.switch :: body, others, rfl, .switch nested, closing⟩
      · obtain ⟨c, cs, here, rfl⟩ := step_close stepped
        rw [here]
        exact ⟨[], is, rfl, .nil, behind⟩
    -- any other instruction leaves the conditionals as they are
    · have kept := @step_conditions env m i (Instruction.branches_of_not_isBranching branching)
      rw [stepped] at kept
      rw [show n.conditions = m.conditions from kept] at behind
      exact behind.single branching

end Machine

namespace Script

variable {flags : Flags} {checker : Checker} {version : SigVersion} {script : Bytes}
  {stack : Stack Bytes}
  {journal : Journal} {m : Machine}

/-- The conditionals of a script that ends well are nested. -/
theorem nested_of_evaluate
    (ran : evaluate flags checker version script stack journal = .running m) :
    Nested false (instructions script) := by
  obtain ⟨whole, -, closed⟩ := evaluate_inv ran
  exact Machine.closes_of_run whole closed

/-- **Conditionals.** While a conditional is false, an instruction that is not branching leaves both
stacks, the conditionals, the start of the signed part and the journal as they are, and can fail
only in the ways that are listed.

A conditional with two branches, each of nested instructions, that starts where instructions are
executed and runs through executes exactly one of them, and the other one changes nothing but the
number of operations. Behind it the open conditionals are what they were before.

And the conditionals of every script that ends well are nested. -/
theorem conditionals_nest (env : Env) :
    (∀ (m : Machine) (i : Instruction), false ∈ m.conditions → ¬i.IsBranching →
      (m.Untouched (m.step env i).machine ∧ (m.step env i).machine.conditions = m.conditions) ∧
      ∀ stop n, m.step env i = .halted stop n → m.StopsWhenSkipped i stop) ∧
    (∀ inverted first second (m m' : Machine), Nested false first → Nested false second →
      m.executing = true →
      Machine.run env (.opens inverted :: first ++ .switch :: second ++ [.close]) m =
        .running m' →
      Machine.RunsOneOf env inverted first second m m') ∧
    ∀ stack journal m,
      evaluate env.flags env.checker env.version env.script stack journal = .running m →
      Nested false (instructions env.script) := by
  refine ⟨?_, ?_, fun stack journal m ran => nested_of_evaluate ran⟩
  · intro m i dead plain
    have skipped := Machine.executing_eq_false_iff.2 dead
    rcases @Machine.step_skipped env m i skipped plain with done | ⟨stop, done, why⟩
    · rw [done]
      exact ⟨⟨Machine.untouched_count i m m.conditions, rfl⟩, nofun⟩
    · rw [done]
      refine ⟨⟨Machine.untouched_count i m m.conditions, rfl⟩, ?_⟩
      rintro _ _ ⟨⟩
      exact why
  · intro inverted first second m m' nested nested' executing ran
    exact Machine.run_conditional nested nested' executing ran

/-- A conditional on a true item that copies the item below it, with another one in its second
branch. And an opcode that is forbidden even where it is skipped. -/
theorem inner_conditional_skipped :
    let env : Env := ⟨.standard, .base, .legacy, [0x63, 0x76, 0x67, 0x63, 0x68, 0x68]⟩
    let first : List Instruction := [⟨0x76, none⟩]
    let second : List Instruction := [.opens false, .close]
    let start : Machine := { stack := [[1], [2]], journal := {} }
    let after : Machine := { stack := [[2], [2]], opCount := 6, position := 6 }
    let skipping : Machine := { conditions := [true, false] }
    Machine.RunsOneOf env false first second start after ∧
      Nested false (instructions env.script) ∧
      (skipping.step env ⟨0x65, none⟩).machine.conditions = skipping.conditions ∧
      skipping.StopsWhenSkipped ⟨0x65, none⟩ (.failed .badOpCode) := by
  intro env first second start after skipping
  obtain ⟨inert, one, ends⟩ := conditionals_nest env
  have copies : Nested false first := .single (by decide) .nil
  have inner : Nested false second := .block .nil .nil
  have ran : Machine.run env (.opens false :: first ++ .switch :: second ++ [.close]) start =
    .running after := by decide +kernel
  have evaluated :
      evaluate env.flags env.checker env.version env.script [[1], [2]] {} = .running after := by
    decide +kernel
  have halted : skipping.step env ⟨0x65, none⟩ =
    .halted (.failed .badOpCode) (skipping.count ⟨0x65, none⟩) := by decide +kernel
  obtain ⟨⟨-, kept⟩, stops⟩ := inert skipping ⟨0x65, none⟩ (by decide) (by decide)
  exact ⟨one false first second start after copies inner rfl ran, ends _ _ _ evaluated, kept,
    stops _ _ halted⟩

end Script

end BlockRules
