import Mathlib
import BlockRules.Proofs.Script.Addresses
import BlockRules.Proofs.Script.Arithmetic
import BlockRules.Proofs.Script.Underneath

/-!
# Opcodes that are short for others

Many opcodes do nothing that others could not do together: `OP_2DUP` is `1 OP_PICK 1 OP_PICK`, and
`OP_EQUALVERIFY` is `OP_EQUAL OP_VERIFY`. Each of them is an operation of its own all the same. This
module says that the long and the short form agree, on every stack and also on those that are too
short: they leave the same, or they fail with the same error.

* `Expands` and `ChecksAtOnce` — the long forms, opcode by opcode;
* `Outcome.SameButCounts` — what it means to agree. A long form counts more operations than a
  short one and takes up more of the script, so that both may differ in these numbers;
* **stacks** — instructions that do nothing but rearrange the main stack are a function from
  stacks to stacks (`Machine.Rearranges`). One opcode is its arrangement, a number with `OP_PICK` or
  `OP_ROLL` is `Stack.fetchAt`, and one after the other is one function after the other
  (`Machine.Rearranges.append`). Two forms agree if their functions do
  (`Machine.rearranges_of_expands`);
* **checks** — an operation that checks its result at once and the one that leaves it take the
  same way up to the result (`Machine.perform_judged`). From there, `OP_VERIFY` does the rest.
-/

namespace BlockRules

/-! ## Long forms -/

namespace Instruction

/-- An opcode that pushes no data. -/
def plain (op : UInt8) : Instruction := ⟨op, none⟩

/-- The instruction that pushes a number from 0 to 16. -/
def small (n : Nat) : Instruction := ⟨Opcode.ofSmallInt n, if n = 0 then some [] else none⟩

/-- The instruction `OP_VERIFY`. -/
def verify : Instruction := .plain 0x69

/-- A number, and `OP_PICK`. -/
def pick (n : Nat) : List Instruction := [.small n, .plain 0x79]

/-- A number, and `OP_ROLL`. -/
def roll (n : Nat) : List Instruction := [.small n, .plain 0x7a]

end Instruction

open Instruction (pick roll)

/-- What the opcodes that rearrange the stack are short for. -/
inductive Expands : UInt8 → List Instruction → Prop
  /-- `OP_DUP` -/
  | dup : Expands 0x76 (pick 0)
  /-- `OP_OVER` -/
  | over1 : Expands 0x78 (pick 1)
  /-- `OP_SWAP` -/
  | swap : Expands 0x7c (roll 1)
  /-- `OP_ROT` -/
  | rot : Expands 0x7b (roll 2)
  /-- `OP_NIP` is `OP_SWAP OP_DROP` -/
  | nip : Expands 0x77 [.plain 0x7c, .plain 0x75]
  /-- `OP_TUCK` is `OP_SWAP OP_OVER` -/
  | tuck : Expands 0x7d [.plain 0x7c, .plain 0x78]
  /-- `OP_2DROP` is `OP_DROP OP_DROP` -/
  | drop2 : Expands 0x6d [.plain 0x75, .plain 0x75]
  /-- `OP_2DUP` -/
  | dup2 : Expands 0x6e (pick 1 ++ pick 1)
  /-- `OP_3DUP` -/
  | dup3 : Expands 0x6f (pick 2 ++ pick 2 ++ pick 2)
  /-- `OP_2OVER` -/
  | over2 : Expands 0x70 (pick 3 ++ pick 3)
  /-- `OP_2SWAP` -/
  | swap2 : Expands 0x72 (roll 3 ++ roll 3)
  /-- `OP_2ROT` -/
  | rot2 : Expands 0x71 (roll 5 ++ roll 5)

/-- An opcode that checks its result at once, the one that leaves it for `OP_VERIFY`, and the error
of the first one if the result is false. -/
inductive ChecksAtOnce : UInt8 → UInt8 → ScriptError → Prop
  /-- `OP_EQUALVERIFY` and `OP_EQUAL` -/
  | equal : ChecksAtOnce 0x88 0x87 .equalVerify
  /-- `OP_NUMEQUALVERIFY` and `OP_NUMEQUAL` -/
  | numEqual : ChecksAtOnce 0x9d 0x9c .numEqualVerify
  /-- `OP_CHECKSIGVERIFY` and `OP_CHECKSIG` -/
  | checkSig : ChecksAtOnce 0xad 0xac .checkSigVerify
  /-- `OP_CHECKMULTISIGVERIFY` and `OP_CHECKMULTISIG` -/
  | checkMultiSig : ChecksAtOnce 0xaf 0xae .checkMultiSigVerify

namespace Outcome

/-- Two outcomes agree, but for the number of operations and the offset: two machines that run on
are the same otherwise, and two that have halted did so for the same reason, after the same
questions. -/
def SameButCounts : Outcome → Outcome → Prop
  | .running m, .running m' => m' = { m with opCount := m'.opCount, position := m'.position }
  | .halted stop m, .halted stop' m' => stop' = stop ∧ m'.journal = m.journal
  | _, _ => False

/-- Reports the failure of `OP_VERIFY` as another error. -/
def blaming (e : ScriptError) : Outcome → Outcome
  | .halted (.failed .verify) m => .halted (.failed e) m
  | o => o

end Outcome

/-! ## Stacks -/

/-- Copies the item at a depth to the top, or moves it there. -/
def Stack.fetchAt (move : Bool) (n : Nat) (s : Stack Bytes) : Option (Stack Bytes) :=
  s[n]?.map fun item => item :: if move then s.eraseIdx n else s

theorem Stack.length_fetchAt_le {move : Bool} {n : Nat} {s s' : Stack Bytes}
    (fetched : fetchAt move n s = some s') :
    s'.length ≤ s.length + 1 := by
  obtain ⟨item, -, rfl⟩ := Option.map_eq_some_iff.1 fetched
  rw [List.length_cons]
  refine Nat.succ_le_succ ?_
  split
  next => exact List.length_eraseIdx_le s n
  next => exact le_rfl

/-- No arrangement makes a stack longer by more than three items. -/
theorem Arrange.length_apply_le {a : Arrange} {s s' : Stack Bytes} (applied : a.apply s = some s') :
    s'.length ≤ s.length + 3 := by
  fun_cases Arrange.apply a s <;>
    simp only [Arrange.apply, Option.some.injEq, reduceCtorEq] at applied
  all_goals subst applied
  case case6 =>
    split <;> simp only [List.length_cons] <;> omega
  all_goals
    simp only [List.length_cons]
    omega

theorem Operation.ofOpcode_ofSmallInt :
    ∀ {n : Nat}, n ≤ 16 → n ≠ 0 →
      Operation.ofOpcode (Opcode.ofSmallInt n) = .number n := by
  decide

theorem Opcode.isPush_ofSmallInt :
    ∀ {n : Nat}, n ≤ 16 → Opcode.isPush (Opcode.ofSmallInt n) = true := by
  decide

namespace Machine

/-- An outcome says what has become of the main stack: either it was too short, or nothing else has
changed but the counts, and neither operations nor items have become many more. -/
inductive Rearranged (m : Machine) (budget : Nat) : Option (Stack Bytes) → Outcome → Prop
  | short {m' : Machine} (same : m'.journal = m.journal) :
    Rearranged m budget none (m'.fail .invalidStackOperation)
  | done {s : Stack Bytes} {opCount position : Nat} (few : opCount ≤ m.opCount + budget)
    (room : s.length ≤ m.stack.length + budget) :
    Rearranged m budget (some s) (.running { m with stack := s, opCount, position })

/-- Instructions do to the main stack what a function says, wherever they are executed and the
limits leave them so many operations and items. -/
def Rearranges (budget : Nat) (f : Stack Bytes → Option (Stack Bytes))
    (is : List Instruction) : Prop :=
  ∀ ⦃env : Env⦄ ⦃m : Machine⦄, m.executing = true →
    m.opCount + budget ≤ Limit.operations →
    m.stack.length + m.alt.length + budget ≤ Limit.stackItems →
    Rearranged m budget (f m.stack) (run env is m)

variable {env : Env} {m : Machine} {op : UInt8}

/-- An opcode that pushes no data, where it is executed. -/
theorem step_plain (executing : m.executing = true) (few : m.opCount < Limit.operations)
    (enabled : Opcode.isDisabled op = false) :
    m.step env (.plain op) = checkStackSize ((m.count (.plain op)).perform env (.ofOpcode op)) :=
  step_eq_perform (i := .plain op) rfl executing few enabled

theorem opCount_count_le (m : Machine) (i : Instruction) :
    (m.count i).opCount ≤ m.opCount + 1 := by
  rw [count]
  dsimp only
  split <;> omega

/-- An operation that rearranges the stack does so as a step, which counts one operation more. -/
theorem Rearranged.step {budget opCount position : Nat} {left : Option (Stack Bytes)} {o : Outcome}
    (performed : Rearranged { m with opCount, position } budget left o)
    (counted : opCount ≤ m.opCount + 1)
    (room : m.stack.length + m.alt.length + budget ≤ Limit.stackItems) :
    Rearranged m (budget + 1) left (checkStackSize o) := by
  cases performed with
  | short same => exact .short same
  | @done s _ _ few longer =>
    dsimp only at few longer
    rw [checkStackSize_of_fits]
    · exact .done (by omega) (by omega)
    · change s.length + m.alt.length ≤ Limit.stackItems
      omega

/-- One after the other. -/
theorem Rearranges.append {k l : Nat} {f g : Stack Bytes → Option (Stack Bytes)}
    {is js : List Instruction}
    (first : Rearranges k f is) (second : Rearranges l g js) :
    Rearranges (k + l) (fun s => (f s).bind g) (is ++ js) := by
  intro env m executing few room
  have one := @first env m executing (by omega) (by omega)
  rw [run_append]
  change Rearranged m (k + l) ((f m.stack).bind g) _
  generalize f m.stack = left, run env is m = o at one ⊢
  cases one with
  | short same => exact .short same
  | @done s opCount position fewer roomier =>
    have two := @second env { m with stack := s, opCount, position } executing
      (by dsimp only; omega) (by dsimp only; omega)
    rw [Option.bind_some, Outcome.andThen_running]
    generalize g s = left, run env js _ = o at two ⊢
    cases two with
    | short same => exact .short same
    | done fewer' roomier' =>
      dsimp only at fewer' roomier'
      exact .done (by omega) (by omega)

/-- An arranging operation is a function on the stack, within three items more. -/
theorem perform_arrange (env : Env) (m : Machine) (a : Arrange) :
    Rearranged m 3 (a.apply m.stack) (m.perform env (.arrange a)) := by
  rw [perform]
  rcases applied : a.apply m.stack with _ | s
  · exact .short rfl
  · exact .done (Nat.le_add_right _ _) (Arrange.length_apply_le applied)

/-- The opcode of an arrangement. -/
theorem rearranges_arrange {a : Arrange} (operation : Operation.ofOpcode op = .arrange a)
    (enabled : Opcode.isDisabled op = false) : Rearranges 4 a.apply [.plain op] := by
  intro env m executing few room
  rw [run_singleton, step_plain executing (by omega) enabled, operation]
  exact (perform_arrange env (m.count (.plain op)) a).step (opCount_count_le m _) (by omega)

/-- A small number is pushed under all flags. -/
theorem step_small (env : Env) {n : Nat} (small : n ≤ 16) (executing : m.executing = true)
    (room : m.stack.length + 1 + m.alt.length ≤ Limit.stackItems) :
    m.step env (.small n) = .running ((m.count (.small n)).push (ScriptNum.encode n)) := by
  have push : Instruction.isPush (.small n) = true := Opcode.isPush_ofSmallInt small
  have counted : (m.count (.small n)).executing = true := executing
  refine step_of_execute ?_ (.inl push) (Opcode.isDisabled_of_isPush push) ?_ room
  · intro data stated
    rw [Instruction.small] at stated
    split at stated
    next => cases stated; exact Nat.zero_le _
    next => cases stated
  · rw [execute, counted]
    by_cases zero : n = 0
    · subst zero
      have minimal : Script.isMinimalPush (Instruction.small 0).opcode [] = true := rfl
      simp only [Instruction.small, if_true] at minimal ⊢
      rw [minimal, Bool.not_true, Bool.and_false]
      rfl
    · simp only [Instruction.small, if_neg zero, Operation.ofOpcode_ofSmallInt small zero,
        Bool.true_or, if_true]
      rfl

/-- A small number is read back under all flags. -/
theorem readNumber_encode {flags : Flags} {n : Nat} (small : n ≤ 16) :
    flags.readNumber Limit.number (ScriptNum.encode n) = .ok (n : Int) := by
  have accepted : ¬Operand.IsRejected flags (.ofItem (ScriptNum.encode n)) := by
    rw [Operand.not_isRejected_ofItem_iff, ScriptNum.length_encode_le_iff]
    refine ⟨?_, fun _ => ScriptNum.isMinimal_encode _⟩
    norm_num
    omega
  rw [Flags.readNumber_of_accepted (by decide) accepted, ScriptNum.value_encode]

/-- A small number on top of the stack is a depth. -/
theorem fetch_small (env : Env) (move : Bool) {n : Nat} {s : Stack Bytes} (small : n ≤ 16)
    (stack : m.stack = ScriptNum.encode n :: s) :
    Rearranged { m with stack := s } 1 (Stack.fetchAt move n s) (m.fetch env move) := by
  rcases s with _ | ⟨next, rest⟩
  · simp only [fetch, stack]
    exact .short rfl
  have depth : ScriptNum.clamp32 n = n := by
    rw [ScriptNum.clamp32]
    omega
  have nonneg : ¬(n : Int) < 0 := Int.not_lt.2 (Int.natCast_nonneg n)
  simp only [fetch, stack, readNumber_encode small, depth, Int.toNat_natCast, if_neg nonneg]
  rcases fetched : Stack.fetchAt move n (next :: rest) with _ | s
  · have missing : (next :: rest)[n]? = none := Option.map_eq_none_iff.1 fetched
    rw [missing]
    exact .short rfl
  · obtain ⟨item, found, rfl⟩ := Option.map_eq_some_iff.1 fetched
    rw [found]
    exact .done (Nat.le_add_right _ _) (Stack.length_fetchAt_le fetched)

/-- A number and the opcode that fetches an item. -/
theorem rearranges_fetch {move : Bool} {n : Nat} (small : n ≤ 16)
    (operation : Operation.ofOpcode op = .fetch move) (enabled : Opcode.isDisabled op = false) :
    Rearranges 2 (Stack.fetchAt move n) [.small n, .plain op] := by
  intro env m executing few room
  have push : Instruction.isPush (.small n) = true := Opcode.isPush_ofSmallInt small
  let pushed := (m.count (.small n)).push (ScriptNum.encode n)
  have counted : pushed.opCount = m.opCount := by
    change (if Instruction.isPush (.small n) then m.opCount else _) = _
    rw [push]
    rfl
  have ran : run env [.small n, .plain op] m = checkStackSize
      ((pushed.count (.plain op)).fetch env move) := by
    rw [run_cons_of_step (step_small env small executing (by omega)), run_singleton,
      step_plain (m := pushed) executing (by omega) enabled, operation]
    rfl
  rw [ran]
  -- the number is gone again, so that only the counts tell the machine from the one it started as
  have fetched := fetch_small (m := pushed.count (.plain op)) env move small rfl
  refine Rearranged.step fetched ?_ (by omega)
  exact (opCount_count_le pushed (.plain op)).trans (Nat.succ_le_succ counted.le)

/-- What a straight line does is told by the function it computes. -/
theorem Rearranges.of_eq {budget : Nat} {f g : Stack Bytes → Option (Stack Bytes)}
    {is : List Instruction}
    (rearranges : Rearranges budget g is) (same : ∀ s, f s = g s) : Rearranges budget f is := by
  obtain rfl : f = g := funext same
  exact rearranges

/-- A long form does what the arrangement of the short one says. -/
theorem rearranges_of_expands {is : List Instruction} (expands : Expands op is) :
    ∃ a : Arrange, Operation.ofOpcode op = .arrange a ∧ Opcode.isDisabled op = false ∧
      ∃ budget ≤ 8, Rearranges budget a.apply is := by
  -- what the long forms are made of
  have pick : ∀ n ≤ 16, Rearranges 2 (Stack.fetchAt false n) (pick n) := fun n small =>
    rearranges_fetch small rfl rfl
  have roll : ∀ n ≤ 16, Rearranges 2 (Stack.fetchAt true n) (roll n) := fun n small =>
    rearranges_fetch small rfl rfl
  have drop : Rearranges 4 Arrange.drop.apply [.plain 0x75] := rearranges_arrange rfl rfl
  have swap : Rearranges 4 Arrange.swap.apply [.plain 0x7c] := rearranges_arrange rfl rfl
  have copy : Rearranges 4 Arrange.over.apply [.plain 0x78] := rearranges_arrange rfl rfl
  -- a long form is compared as a function of the stack, on stacks of each length up to the one it
  -- needs
  cases expands
  case dup =>
    refine ⟨.dup, rfl, rfl, _, ?_, (pick 0 (by decide)).of_eq ?_⟩
    · decide
    · rintro (_ | ⟨a, s⟩) <;> rfl
  case over1 =>
    refine ⟨.over, rfl, rfl, _, ?_, (pick 1 (by decide)).of_eq ?_⟩
    · decide
    · rintro (_ | ⟨a, _ | ⟨b, s⟩⟩) <;> rfl
  case swap =>
    refine ⟨.swap, rfl, rfl, _, ?_, (roll 1 (by decide)).of_eq ?_⟩
    · decide
    · rintro (_ | ⟨a, _ | ⟨b, s⟩⟩) <;> rfl
  case rot =>
    refine ⟨.rot, rfl, rfl, _, ?_, (roll 2 (by decide)).of_eq ?_⟩
    · decide
    · rintro (_ | ⟨a, _ | ⟨b, _ | ⟨c, s⟩⟩⟩) <;> rfl
  case nip =>
    refine ⟨.nip, rfl, rfl, _, ?_, (swap.append drop).of_eq ?_⟩
    · decide
    · rintro (_ | ⟨a, _ | ⟨b, s⟩⟩) <;> rfl
  case tuck =>
    refine ⟨.tuck, rfl, rfl, _, ?_, (swap.append copy).of_eq ?_⟩
    · decide
    · rintro (_ | ⟨a, _ | ⟨b, s⟩⟩) <;> rfl
  case drop2 =>
    refine ⟨.drop2, rfl, rfl, _, ?_, (drop.append drop).of_eq ?_⟩
    · decide
    · rintro (_ | ⟨a, _ | ⟨b, s⟩⟩) <;> rfl
  case dup2 =>
    refine ⟨.dup2, rfl, rfl, _, ?_, ((pick 1 (by decide)).append (pick 1 (by decide))).of_eq ?_⟩
    · decide
    · rintro (_ | ⟨a, _ | ⟨b, s⟩⟩) <;> rfl
  case dup3 =>
    have two := (pick 2 (by decide)).append (pick 2 (by decide))
    refine ⟨.dup3, rfl, rfl, _, ?_, (two.append (pick 2 (by decide))).of_eq ?_⟩
    · decide
    · rintro (_ | ⟨a, _ | ⟨b, _ | ⟨c, s⟩⟩⟩) <;> rfl
  case over2 =>
    refine ⟨.over2, rfl, rfl, _, ?_,
      ((pick 3 (by decide)).append (pick 3 (by decide))).of_eq ?_⟩
    · decide
    · rintro (_ | ⟨a, _ | ⟨b, _ | ⟨c, _ | ⟨d, s⟩⟩⟩⟩) <;> rfl
  case swap2 =>
    refine ⟨.swap2, rfl, rfl, _, ?_,
      ((roll 3 (by decide)).append (roll 3 (by decide))).of_eq ?_⟩
    · decide
    · rintro (_ | ⟨a, _ | ⟨b, _ | ⟨c, _ | ⟨d, s⟩⟩⟩⟩) <;> rfl
  case rot2 =>
    refine ⟨.rot2, rfl, rfl, _, ?_, ((roll 5 (by decide)).append (roll 5 (by decide))).of_eq ?_⟩
    · decide
    · rintro (_ | ⟨a, _ | ⟨b, _ | ⟨c, _ | ⟨d, _ | ⟨e, _ | ⟨f, s⟩⟩⟩⟩⟩⟩) <;>
        rfl

/-- Two outcomes that say the same of the main stack agree. -/
theorem Rearranged.sameButCounts {k l : Nat} {left : Option (Stack Bytes)} {o o' : Outcome}
    (first : Rearranged m k left o) (second : Rearranged m l left o') : o.SameButCounts o' := by
  cases first with
  | short same =>
    cases second with
    | short same' => exact ⟨rfl, same'.trans same.symm⟩
  | done =>
    cases second with
    | done => rfl

/-! ## Checks -/

/-- Two outcomes of one operation, of which the second one checks at once the truth value that the
first one leaves. They are the same if it does not come to that, and if it does, no item has been
added, and no more operations than keys. -/
inductive Judged (m : Machine) (e : ScriptError) : Outcome → Outcome → Prop
  | halted (stop : Stop) (m' : Machine) : Judged m e (.halted stop m') (.halted stop m')
  | judged {m' : Machine} (holds : Bool) (branches : m'.conditions = m.conditions)
    (few : m'.opCount ≤ m.opCount + Limit.keys)
    (room : m'.stack.length + m'.alt.length ≤ m.stack.length + m.alt.length) :
    Judged m e (m'.conclude none holds) (m'.conclude (some e) holds)

/-- The verifying comparison is the comparison, judged. -/
theorem equal_judged (env : Env) (m : Machine) :
    Judged m .equalVerify (m.perform env (.equal false)) (m.perform env (.equal true)) := by
  rcases items : m.stack with _ | ⟨b, _ | ⟨a, rest⟩⟩ <;> simp only [perform, items]
  · exact .halted _ _
  · exact .halted _ _
  · exact .judged _ rfl (Nat.le_add_right _ _) (by grind)

theorem numEqual_judged (env : Env) (m : Machine) :
    Judged m .numEqualVerify (m.perform env (.binary .equal false))
      (m.perform env (.binary .equal true)) := by
  rcases items : m.stack with _ | ⟨b, _ | ⟨a, rest⟩⟩ <;> simp only [perform, binary, items]
  · exact .halted _ _
  · exact .halted _ _
  rcases env.flags.readNumber Limit.number a with stop | x
  · exact .halted _ _
  rcases env.flags.readNumber Limit.number b with stop | y
  · exact .halted _ _
  -- the number that is left is a truth value, and it is not zero if that is true
  have result : signed64 (Binary.equal.apply x y) = .ok (truthNumber (x = y)) := by
    refine signed64_of_natAbs_lt ?_
    exact (natAbs_truthNumber_le (x = y)).trans_lt (by norm_num)
  have nonzero : decide (truthNumber (x = y) ≠ 0) = decide (x = y) := by
    rw [truthNumber]
    split <;> simp [*]
  simp only [result, nonzero, ← boolItem_eq]
  exact @Judged.judged m _ { m with stack := rest } _ rfl (Nat.le_add_right _ _) (by grind)

theorem checkSig_judged (env : Env) (m : Machine) :
    Judged m .checkSigVerify (m.perform env (.checkSig false))
      (m.perform env (.checkSig true)) := by
  rcases items : m.stack with _ | ⟨key, _ | ⟨sig, rest⟩⟩ <;>
    simp only [perform, checkSig, items]
  · exact .halted _ _
  · exact .halted _ _
  rcases m.signedCode env [sig] with fault | code
  · exact .halted _ _
  rcases env.flags.checkForms env.version sig key with stop | _
  · exact .halted _ _
  dsimp only
  rcases (m.journal.ask env.checker (.signature sig key code env.version)).1 with _ | _ | text
  · exact .judged _ rfl (Nat.le_add_right _ _) (by grind)
  · dsimp only
    split
    next => exact .halted _ _
    next => exact .judged _ rfl (Nat.le_add_right _ _) (by grind)
  · exact .halted _ _

/-- The end of a multi-signature check, at a machine that has gone no further than counting keys. -/
theorem settleMultiSig_judged {m' : Machine} {taken : Nat} {sigs : List Bytes} {success : Bool}
    (branches : m'.conditions = m.conditions) (few : m'.opCount ≤ m.opCount + Limit.keys)
    (room : m'.stack.length + m'.alt.length ≤ m.stack.length + m.alt.length) :
    Judged m .checkMultiSigVerify (m'.settleMultiSig env false taken sigs success)
      (m'.settleMultiSig env true taken sigs success) := by
  simp only [settleMultiSig]
  split
  next => exact .halted _ _
  rcases left : m'.stack.drop taken with _ | ⟨dummy, rest⟩
  · exact .halted _ _
  dsimp only
  split
  next => exact .halted _ _
  next =>
    have fewer := congrArg List.length left
    rw [List.length_drop, List.length_cons] at fewer
    refine .judged _ branches few ?_
    dsimp only
    omega

theorem checkMultiSig_judged (env : Env) (m : Machine) :
    Judged m .checkMultiSigVerify (m.perform env (.checkMultiSig false))
      (m.perform env (.checkMultiSig true)) := by
  -- up to the result both stop for the same reasons, so they differ in what they make of it
  rcases items : m.stack with _ | ⟨keyCount, belowCount⟩ <;>
    simp only [perform, checkMultiSig, items]
  · exact .halted _ _
  rcases keys : readCount env Limit.keys keyCount with stop | _ | k
  · exact .halted _ _
  · exact .halted _ _
  dsimp only
  split
  next => exact .halted _ _
  rcases belowCount.drop k with _ | ⟨sigCount, belowKeys⟩
  · exact .halted _ _
  dsimp only
  rcases readCount env k sigCount with stop | _ | n
  · exact .halted _ _
  · exact .halted _ _
  dsimp only
  split
  next => exact .halted _ _
  split
  next => exact .halted _ _
  split
  next => exact .halted _ _
  next =>
    refine settleMultiSig_judged rfl ?_ ?_
    · exact Nat.add_le_add_left (readCount_le keys) _
    · rw [items]

/-- An operation that checks its result at once takes the way of the one that leaves it. -/
theorem perform_judged (env : Env) (m : Machine) {plain : UInt8} {e : ScriptError}
    (checks : ChecksAtOnce op plain e) :
    Judged m e (m.perform env (.ofOpcode plain)) (m.perform env (.ofOpcode op)) := by
  cases checks
  case equal => exact equal_judged env m
  case numEqual => exact numEqual_judged env m
  case checkSig => exact checkSig_judged env m
  case checkMultiSig => exact checkMultiSig_judged env m

/-- `OP_VERIFY` takes a truth value off the stack. -/
theorem step_verify {holds : Bool} (executing : m.executing = true)
    (few : m.opCount < Limit.operations)
    (room : m.stack.length + m.alt.length ≤ Limit.stackItems) :
    (m.push (boolItem holds)).step env .verify =
      if holds then .running { m.count .verify with stack := m.stack }
      else ((m.count .verify).push (boolItem false)).fail .verify := by
  refine (step_plain (m := m.push (boolItem holds)) executing few rfl).trans ?_
  cases holds with
  | false => rfl
  | true =>
    exact checkStackSize_of_fits (m := { m.count .verify with stack := m.stack }) room

/-- What an operation leaves, `OP_VERIFY` checks. -/
theorem Judged.sameButCounts {e : ScriptError} {o o' : Outcome} (judged : Judged m e o o')
    (executing : m.executing = true) (few : m.opCount + Limit.keys < Limit.operations)
    (room : m.stack.length + m.alt.length < Limit.stackItems) :
    (checkStackSize o').SameButCounts
      ((checkStackSize o).andThen fun left => (left.step env .verify).blaming e) := by
  cases judged with
  | halted stop m' => exact ⟨rfl, rfl⟩
  | @judged m' holds branches fewer noMore =>
    have going : m'.executing = true := by
      rw [Machine.executing, branches]
      exact executing
    have fits : m'.stack.length + m'.alt.length ≤ Limit.stackItems := by omega
    have pushed :
        checkStackSize (m'.conclude none holds) = .running (m'.push (boolItem holds)) := by
      refine checkStackSize_of_fits ?_
      change m'.stack.length + 1 + m'.alt.length ≤ Limit.stackItems
      omega
    rw [pushed, Outcome.andThen_running, step_verify going (by omega) fits]
    cases holds with
    | false => exact ⟨rfl, rfl⟩
    | true =>
      rw [conclude, if_pos rfl, if_pos rfl, checkStackSize_of_fits fits]
      rfl

/-- **Short forms and long forms.** Take any branch that is executed, with at most 150 operations
counted and at most 990 items on both stacks together, under any flags, for any script and checker.

* An opcode that rearranges the stack and the instructions it is short for agree: they leave the
  same stacks, conditionals and journal, or they fail with the same error.
* So do an opcode that checks its result at once and the one that leaves it, followed by
  `OP_VERIFY`, if its own failure is reported as that of the first one.
* Nothing of this depends on how the items are found: the opcodes do the same by address, with a
  depth to ask for, exchanges and ranges of their own. -/
theorem short_forms_agree (env : Env) (executing : m.executing = true) (few : m.opCount ≤ 150)
    (room : m.stack.length + m.alt.length ≤ 990) :
    (∀ op is, Expands op is → (m.step env (.plain op)).SameButCounts (run env is m)) ∧
    (∀ op plain e, ChecksAtOnce op plain e →
      (m.step env (.plain op)).SameButCounts
        ((m.step env (.plain plain)).andThen fun left => (left.step env .verify).blaming e)) ∧
    (∀ op, Opcode.isDisabled op = false →
      m.step env (.plain op) =
        checkStackSize ((Procedure.perform env (.ofOpcode op)).outcome (m.count (.plain op)))) := by
  -- at most eight more operations and ten more items are needed on the way, twenty operations for
  -- the keys
  have operations : Limit.operations = 201 := rfl
  have items : Limit.stackItems = 1000 := rfl
  refine ⟨?_, ?_, ?_⟩
  · intro op is expands
    obtain ⟨a, operation, enabled, budget, small, long⟩ := rearranges_of_expands expands
    have short := rearranges_arrange operation enabled
    rw [← run_singleton]
    exact (short executing (by omega) (by omega)).sameButCounts
      (long executing (by omega) (by omega))
  · intro op plain e checks
    have enabled : Opcode.isDisabled op = false ∧ Opcode.isDisabled plain = false := by
      cases checks <;> exact ⟨rfl, rfl⟩
    have counted : m.count (.plain op) = m.count (.plain plain) := by
      cases checks <;> rfl
    have judged := perform_judged env (m.count (.plain plain)) checks
    rw [step_plain executing (by omega) enabled.1,
      step_plain executing (by omega) enabled.2, counted]
    have opCount := opCount_count_le m (.plain plain)
    refine judged.sameButCounts executing ?_ ?_
    · change _ + 20 < 201
      omega
    · change m.stack.length + m.alt.length < Limit.stackItems
      omega
  · intro op enabled
    have counted := opCount_count_le m (.plain op)
    rw [step_plain executing (by omega) enabled, Procedure.perform_eq _ (by omega)]

/-- Six items are rotated by two steps or by five, and two different items fail in the same way. -/
theorem rotated_in_either_form :
    let env : Env := ⟨.single .minimalData, .listed [] false false none none, .legacy, []⟩
    let m : Machine := { stack := [[1], [2], [3], [4], [5], [6]], opCount := 150 }
    let rotated : Machine :=
      { m with stack := [[5], [6], [1], [2], [3], [4]], opCount := 151, position := 1 }
    m.executing = true ∧ m.opCount ≤ 150 ∧ m.stack.length + m.alt.length ≤ 990 ∧
      m.step env (.plain 0x71) = .running rotated ∧
      (∃ opCount position,
        run env (roll 5 ++ roll 5) m = .running { rotated with opCount, position }) ∧
      ChecksAtOnce 0x88 0x87 .equalVerify ∧
      ∃ left,
        (m.step env (.plain 0x87)).andThen
            (fun left => (left.step env .verify).blaming .equalVerify) =
          .halted (.failed .equalVerify) left := by
  intro env m rotated
  obtain ⟨arranged, checks, -⟩ := short_forms_agree (m := m) env rfl le_rfl (by decide)
  have short : m.step env (.plain 0x71) = .running rotated := by decide +kernel
  have refused : m.step env (.plain 0x88) = .halted (.failed .equalVerify)
      { m with stack := [[], [3], [4], [5], [6]], opCount := 151, position := 1 } := by
        decide +kernel
  have long := arranged _ _ .rot2
  have either := checks _ _ _ .equal
  -- the short forms are worked out; what the long ones come to then follows
  rw [short] at long
  rw [refused] at either
  refine ⟨rfl, le_rfl, by decide, short, ?_, .equal, ?_⟩
  · rcases ran : run env (roll 5 ++ roll 5) m with left | ⟨stop, left⟩
    · rw [ran] at long
      exact ⟨left.opCount, left.position, congrArg Outcome.running long⟩
    · rw [ran] at long
      exact long.elim
  · rcases ended : (m.step env (.plain 0x87)).andThen fun left =>
      (left.step env .verify).blaming .equalVerify
      with left | ⟨stop, left⟩
    · rw [ended] at either
      exact either.elim
    · rw [ended] at either
      obtain ⟨rfl, -⟩ := either
      exact ⟨left, rfl⟩

end Machine

end BlockRules
