import Mathlib
import BlockRules.Proofs.Script.Deletion
import BlockRules.Proofs.Script.Separators

/-!
# One form for a push

There are several ways to push a byte string: behind its length, which is written in one of four
forms, and for some strings of one byte with an opcode of their own. The flag `Flag.minimalData`
admits one of them, `Instruction.shortest`. Hence under this flag the items that a script of pushes
leaves are as good as the script, and no one can write it in another way.

* **the form** — a push that runs on is the shortest one for the item it leaves
  (`Machine.step_shortest`), so that a script can be read off its items
  (`Script.evaluate_shortest`). The shortest one runs on, so that items have a script
  (`Script.evaluate_of_shortest`);
* **what is left alone** — a push changes nothing but the stack and the place in the script,
  whether it runs on or not (`Machine.Heaps`);
* **failures** — a run of pushes stops only at an instruction that is refused
  (`Instruction.Refused`) or for want of room (`Machine.run_pushes_halted`).

The theorem about scripts of pushes is put together from these in `Script.pushes_not_malleable`.
-/

namespace BlockRules

namespace Instruction

/-- The one opcode of a push that pushes nothing. -/
def reserved : Instruction := ⟨0x50, none⟩

/-- The shortest instruction that pushes an item: the opcode of a number from 1 to 16 or of -1, if
the item is one of these, and otherwise its bytes behind their length. -/
def shortest (item : Bytes) : Instruction :=
  match item with
  | [b] =>
    if 1 ≤ b ∧ b ≤ 16 then ⟨0x50 + b, none⟩
    else if b = 0x81 then ⟨Opcode.negativeOne, none⟩
    else push [b]
  | item => push item

/-- Why a push is refused in a branch that is executed. -/
inductive Refused (flags : Flags) : Instruction → ScriptError → Prop
  | pushSize {op : UInt8} {data : Bytes} : Limit.pushSize < data.length →
      Refused flags ⟨op, some data⟩ .pushSize
  | minimalData {op : UInt8} {data : Bytes} : flags.has .minimalData = true →
      Script.isMinimalPush op data = false → Refused flags ⟨op, some data⟩ .minimalData
  | badOpCode : Refused flags reserved .badOpCode

/-- Data behind the shortest opcode for them are pushed in the shortest form. The length matters:
behind more than two bytes of it, any opcode is admitted. -/
theorem eq_shortest_of_isMinimalPush {op : UInt8} {data : Bytes} (short : data.length ≤ 0xffff)
    (minimal : Script.isMinimalPush op data = true) : ⟨op, some data⟩ = shortest data := by
  -- the rule looks at no byte, at the only one, or just at their number
  match data with
  | [] =>
    obtain rfl := eq_of_beq minimal
    rfl
  | [b] =>
    rw [Script.isMinimalPush, Bool.and_eq_true, Bool.and_eq_true, Bool.not_eq_true', bne_iff_ne,
      beq_iff_eq] at minimal
    obtain ⟨⟨number, negative⟩, rfl⟩ := minimal
    have number : ¬(1 ≤ b ∧ b ≤ 16) := by
      rintro ⟨low, high⟩
      rw [decide_eq_true low, decide_eq_true high] at number
      cases number
    rw [shortest, if_neg number, if_neg negative]
    rfl
  | a :: b :: data =>
    have form : shortest (a :: b :: data) = push (a :: b :: data) := rfl
    rw [form, push]
    congr 1
    have several : 2 ≤ (a :: b :: data).length := Nat.le_add_left 2 data.length
    rw [Script.isMinimalPush_of_two_le several] at minimal
    rw [Opcode.forLength]
    -- from here on it is only about the number of bytes
    generalize (a :: b :: data).length = count at short minimal ⊢
    by_cases direct : count < 0x4c
    · rw [if_pos (by omega), beq_iff_eq] at minimal
      rw [if_pos direct, ← minimal, UInt8.ofNat_toNat]
    · rw [if_neg (by omega)] at minimal
      rw [if_neg direct]
      split at minimal
      next one =>
        rw [if_pos one]
        exact eq_of_beq minimal
      next two =>
        rw [if_neg two, if_pos short]
        exact eq_of_beq minimal

/-- An opcode that pushes a number is the shortest form of that number. -/
theorem eq_shortest_of_item? :
    ∀ {op : UInt8}, Opcode.isPush op = true → Opcode.pushLength? op = none →
    ∀ item ∈ item? ⟨op, none⟩, ⟨op, none⟩ = shortest item := by
  decide +kernel

/-- The shortest form has an opcode alone for some items of one byte, and for all others it is
behind their length, by the opcode that is the shortest one there. -/
theorem shortest_cases (item : Bytes) :
    (∃ op, shortest item = ⟨op, none⟩ ∧ Opcode.isPush op = true ∧
      Opcode.pushLength? op = none ∧
      item? ⟨op, none⟩ = some item) ∨
    shortest item = push item ∧
    Script.isMinimalPush (Opcode.forLength item.length) item = true := by
  match item with
  | [] => exact .inr ⟨rfl, rfl⟩
  | [b] =>
    by_cases number : 1 ≤ b ∧ b ≤ 16
    · have small : ∀ {b : UInt8}, 1 ≤ b ∧ b ≤ 16 → Opcode.isPush (0x50 + b) = true ∧
          Opcode.pushLength? (0x50 + b) = none ∧ item? ⟨0x50 + b, none⟩ = some [b] := by
            decide +kernel
      exact .inl ⟨0x50 + b, by rw [shortest, if_pos number], small number⟩
    by_cases negative : b = 0x81
    · subst negative
      exact .inl ⟨Opcode.negativeOne, by decide +kernel⟩
    · refine .inr ⟨by rw [shortest, if_neg number, if_neg negative], ?_⟩
      refine Script.isMinimalPush_forLength fun c same => ?_
      obtain rfl := List.singleton_inj.1 same
      exact ⟨number, negative⟩
  | a :: b :: data =>
    have several : (a :: b :: data).length ≠ 1 := by
      rw [List.length_cons, List.length_cons]
      omega
    exact .inr ⟨rfl, Script.isMinimalPush_of_length_ne_one several⟩

theorem isPush_shortest (item : Bytes) : (shortest item).isPush = true := by
  rcases shortest_cases item with ⟨op, form, push, -, -⟩ | ⟨form, -⟩ <;> rw [form]
  · exact push
  · exact Opcode.isPush_forLength item.length

/-- The shortest push of an item can be read back as long as its length can be stated. -/
theorem fits_shortest {item : Bytes} (short : item.length < 2 ^ 32) : (shortest item).Fits := by
  rcases shortest_cases item with ⟨op, form, -, plain, -⟩ | ⟨form, -⟩ <;> rw [form]
  · exact plain
  · exact fits_push short

/-- Of the pushes without data, one has no meaning. -/
theorem opcode_of_invalid :
    ∀ {op : UInt8}, Opcode.isPush op = true → Opcode.pushLength? op = none →
    Operation.ofOpcode op = .invalid → op = 0x50 := by
  decide +kernel

end Instruction

namespace Machine

variable {env : Env} {i : Instruction} {is : List Instruction} {m m' : Machine} {stop : Stop}

/-! ## The form of a push -/

/-- Under the flag, a push that runs on is the shortest one for the item it leaves. -/
theorem step_shortest (minimal : env.flags.has .minimalData = true) (fits : i.Fits)
    (push : i.isPush = true) (executing : m.executing = true) (ran : m.step env i = .running m') :
    ∃ item, i = .shortest item ∧ m' = (m.count i).push item := by
  obtain ⟨item, pushed, left⟩ := step_push push executing ran
  refine ⟨item, ?_, left⟩
  obtain ⟨short, -, -, done, -⟩ := step_running_iff.1 ran
  rcases i with ⟨op, _ | data⟩
  · exact Instruction.eq_shortest_of_item? push fits item pushed
  · obtain rfl : data = item := Option.some.inj pushed
    have counted : (m.count ⟨op, some data⟩).executing = true := executing
    have admitted : Script.isMinimalPush op data = true := by
      by_contra other
      rw [execute] at done
      dsimp only at done
      rw [if_pos counted, minimal, Bool.eq_false_of_not_eq_true other, Bool.not_false,
        Bool.and_self, if_pos rfl] at done
      cases done
    have limit := short data rfl
    exact Instruction.eq_shortest_of_isMinimalPush (limit.trans (by decide)) admitted

/-- So are all the pushes of a run. -/
theorem run_shortest (minimal : env.flags.has .minimalData = true) (fits : ∀ i ∈ is, i.Fits)
    (push : is.all Instruction.isPush = true) (executing : m.executing = true)
    (ran : run env is m = .running m') :
    ∃ items : List Bytes, is = items.map .shortest ∧ m'.stack = items.reverse ++ m.stack := by
  induction is generalizing m with
  | nil =>
    obtain rfl := Outcome.running.inj ran
    exact ⟨[], rfl, rfl⟩
  | cons i is ih =>
    rw [List.all_cons, Bool.and_eq_true] at push
    rw [List.forall_mem_cons] at fits
    obtain ⟨next, stepped, rest⟩ := run_cons_inv ran
    obtain ⟨item, form, rfl⟩ := step_shortest minimal fits.1 push.1 executing stepped
    obtain ⟨items, forms, left⟩ := @ih ((m.count i).push item) fits.2 push.2 executing rest
    refine ⟨item :: items, by rw [form, forms, List.map_cons], ?_⟩
    rw [left, List.reverse_cons, List.append_assoc]
    rfl

/-- Conversely, the shortest push runs on whether or not the flag is set, if its item is not too
long and there is room for it. -/
theorem step_of_shortest {item : Bytes} (short : item.length ≤ Limit.pushSize)
    (executing : m.executing = true)
    (room : m.stack.length + 1 + m.alt.length ≤ Limit.stackItems) :
    m.step env (.shortest item) = .running ((m.count (.shortest item)).push item) := by
  have counted : (m.count (.shortest item)).executing = true := executing
  have push := Instruction.isPush_shortest item
  rcases Instruction.shortest_cases item with ⟨op, form, -, -, pushed⟩ | ⟨form, minimal⟩
  · rw [form] at counted push ⊢
    refine step_of_execute nofun (.inl push) (Opcode.isDisabled_of_isPush push) ?_ room
    rw [execute]
    dsimp only
    rw [counted, Bool.true_or, if_pos rfl]
    rw [Instruction.item?] at pushed
    rcases ofOpcode_of_isPush push with ⟨n, number⟩ | invalid
    · simp only [number] at pushed ⊢
      rw [perform, Option.some.inj pushed]
    · simp only [invalid] at pushed
      cases pushed
  · rw [form]
    exact step_pushData short (fun _ => minimal) executing room

/-- So do the shortest pushes one after the other. -/
theorem run_of_shortest {items : List Bytes}
    (short : ∀ item ∈ items, item.length ≤ Limit.pushSize) (executing : m.executing = true)
    (room : m.stack.length + items.length + m.alt.length ≤ Limit.stackItems) :
    ∃ m', run env (items.map .shortest) m = .running m' ∧
      m'.stack = items.reverse ++ m.stack := by
  induction items generalizing m with
  | nil => exact ⟨m, rfl, rfl⟩
  | cons item items ih =>
    rw [List.forall_mem_cons] at short
    rw [List.length_cons] at room
    have first := @step_of_shortest env m item short.1 executing (by omega)
    have room' : (item :: m.stack).length + items.length + m.alt.length ≤ Limit.stackItems := by
      rw [List.length_cons]
      omega
    obtain ⟨m', ran, left⟩ := @ih ((m.count (.shortest item)).push item) short.2 executing room'
    refine ⟨m', by rw [List.map_cons, run_cons_of_step first, ran], ?_⟩
    rw [left, List.reverse_cons, List.append_assoc]
    rfl

/-! ## What pushes leave alone -/

/-- Items have been put on the stack, and the machine has moved on; all else is as it was. -/
def Heaps (m m' : Machine) : Prop :=
  ∃ (items : List Bytes) (position : Nat), m' = { m with stack := items ++ m.stack, position }

theorem Heaps.trans {m'' : Machine} (h : m.Heaps m') (h' : m'.Heaps m'') : m.Heaps m'' := by
  obtain ⟨items, position, rfl⟩ := h
  obtain ⟨items', position', rfl⟩ := h'
  exact ⟨items' ++ items, position', by rw [List.append_assoc]⟩

/-- No branch has been opened or closed. -/
theorem Heaps.executing (h : m.Heaps m') : m'.executing = m.executing := by
  obtain ⟨items, position, rfl⟩ := h
  rfl

/-- A push is not counted as an operation. -/
theorem count_heaps (push : i.isPush = true) : m.Heaps (m.count i) := by
  refine ⟨[], m.position + i.bytes.length, ?_⟩
  rw [count, push]
  rfl

theorem push_heaps (item : Bytes) : m.Heaps (m.push item) := ⟨[item], m.position, rfl⟩

/-- A push that does not run on is refused, or there is no room for what it has pushed. -/
theorem step_push_halted (fits : i.Fits) (push : i.isPush = true) (executing : m.executing = true)
    (halts : m.step env i = .halted stop m') :
    (∃ e, stop = .failed e ∧ i.Refused env.flags e ∧ m' = m.count i) ∨
      ∃ item, stop = .failed .stackSize ∧ m' = (m.count i).push item ∧
        Limit.stackItems < m'.stack.length + m'.alt.length := by
  have counted : (m.count i).executing = true := executing
  -- the stack is looked at behind a push that is carried out
  have full {item : Bytes}
    (checked : checkStackSize (.running ((m.count i).push item)) = .halted stop m') :
      stop = .failed .stackSize ∧ m' = (m.count i).push item ∧
        Limit.stackItems < m'.stack.length + m'.alt.length := by
    rw [checkStackSize] at checked
    split at checked
    next crowded =>
      obtain ⟨rfl, rfl⟩ := Outcome.halted.inj checked
      exact ⟨rfl, rfl, crowded⟩
    next => cases checked
  rw [step, push, Opcode.isDisabled_of_isPush push] at halts
  rw [Bool.not_true, Bool.false_and, if_neg Bool.false_ne_true, if_neg Bool.false_ne_true] at halts
  rcases i with ⟨op, _ | data⟩
  · rw [Option.any_none, if_neg Bool.false_ne_true, execute] at halts
    dsimp only at halts
    rw [counted, Bool.true_or, if_pos rfl] at halts
    rcases ofOpcode_of_isPush push with ⟨n, number⟩ | invalid
    · rw [number, perform] at halts
      exact .inr ⟨_, full halts⟩
    · obtain rfl := Instruction.opcode_of_invalid push fits invalid
      obtain ⟨rfl, rfl⟩ := Outcome.halted.inj halts
      exact .inl ⟨_, rfl, .badOpCode, rfl⟩
  · rw [Option.any_some] at halts
    split at halts
    next long =>
      obtain ⟨rfl, rfl⟩ := Outcome.halted.inj halts
      exact .inl ⟨_, rfl, .pushSize (of_decide_eq_true long), rfl⟩
    next =>
    rw [execute] at halts
    dsimp only at halts
    rw [if_pos counted] at halts
    split at halts
    next other =>
      obtain ⟨rfl, rfl⟩ := Outcome.halted.inj halts
      rw [Bool.and_eq_true, Bool.not_eq_true'] at other
      exact .inl ⟨_, rfl, .minimalData other.1 other.2, rfl⟩
    next => exact .inr ⟨_, full halts⟩

/-- A push heaps, whether it runs on or not. -/
theorem step_heaps (fits : i.Fits) (push : i.isPush = true) (executing : m.executing = true) :
    m.Heaps (m.step env i).machine := by
  have counted := m.count_heaps push
  rcases stepped : m.step env i with next | ⟨stop, halted⟩
  · obtain ⟨item, -, rfl⟩ := step_push push executing stepped
    exact counted.trans (push_heaps item)
  · rcases step_push_halted fits push executing stepped with ⟨e, -, -, rfl⟩ | ⟨item,
      -, rfl, -⟩
    · exact counted
    · exact counted.trans (push_heaps item)

/-- A run of pushes heaps, whether it runs through or not. -/
theorem run_heaps (fits : ∀ i ∈ is, i.Fits) (push : is.all Instruction.isPush = true)
    (executing : m.executing = true) : m.Heaps (run env is m).machine := by
  induction is generalizing m with
  | nil => exact ⟨[], m.position, rfl⟩
  | cons i is ih =>
    rw [List.all_cons, Bool.and_eq_true] at push
    rw [List.forall_mem_cons] at fits
    have first := @step_heaps env i m fits.1 push.1 executing
    rw [run]
    rcases stepped : m.step env i with next | ⟨stop, halted⟩ <;> rw [stepped] at first
    · exact first.trans (ih fits.2 push.2 (first.executing.trans executing))
    · exact first

/-- A run of pushes that halts has come to one that is refused, or has filled the stack. -/
theorem run_pushes_halted (fits : ∀ i ∈ is, i.Fits) (push : is.all Instruction.isPush = true)
    (executing : m.executing = true) (halts : run env is m = .halted stop m') :
    ∃ e, stop = .failed e ∧ ((∃ i ∈ is, i.Refused env.flags e) ∨
      e = .stackSize ∧ Limit.stackItems < m'.stack.length + m'.alt.length) := by
  induction is generalizing m with
  | nil => cases halts
  | cons i is ih =>
    rw [List.all_cons, Bool.and_eq_true] at push
    rw [List.forall_mem_cons] at fits
    rw [run] at halts
    rcases stepped : m.step env i with next | ⟨stop', halted⟩ <;> rw [stepped] at halts
    · obtain ⟨item, -, rfl⟩ := step_push push.1 executing stepped
      obtain ⟨e, failed, reason⟩ := @ih ((m.count i).push item) fits.2 push.2 executing halts
      refine ⟨e, failed, reason.imp_left ?_⟩
      rintro ⟨j, mem, refused⟩
      exact ⟨j, List.mem_cons_of_mem i mem, refused⟩
    · obtain ⟨rfl, rfl⟩ := Outcome.halted.inj halts
      rcases step_push_halted fits.1 push.1 executing stepped with
        ⟨e, failed, refused, -⟩ | ⟨item, failed, -, crowded⟩
      · exact ⟨e, failed, .inl ⟨i, List.mem_cons_self, refused⟩⟩
      · exact ⟨_, failed, .inr ⟨rfl, crowded⟩⟩

end Machine

namespace Script

variable {flags : Flags} {checker : Checker} {version : SigVersion} {script : Bytes}
  {stack : Stack Bytes} {journal : Journal} {m : Machine} {stop : Stop}

/-- Why the evaluation of a script of pushes fails, and with which machine. -/
inductive PushFailure (flags : Flags) (script : Bytes) (m : Machine) : ScriptError → Prop
  | scriptSize : Limit.scriptSize < script.length → PushFailure flags script m .scriptSize
  | refused {i : Instruction} {e : ScriptError} :
    i ∈ instructions script → i.Refused flags e →
      PushFailure flags script m e
  | stackSize : Limit.stackItems < m.stack.length → PushFailure flags script m .stackSize

/-- **The script can be read off its items.** If a script of pushes runs through under the flag, it
is made of the shortest pushes of the items that it leaves. -/
theorem evaluate_shortest (minimal : flags.has .minimalData = true)
    (push : isPushOnly script = true)
    (ran : evaluate flags checker version script stack journal = .running m) :
    ∃ items : List Bytes, script = bytes (items.map .shortest) ∧
      m.stack = items.reverse ++ stack := by
  obtain ⟨run, whole, -⟩ := evaluate_inv ran
  obtain ⟨items, forms, left⟩ :=
    Machine.run_shortest minimal (fun _ => fits_of_mem_instructions)
    (isPushOnly_iff.1 push).2 rfl run
  refine ⟨items, ?_, left⟩
  conv_lhs => rw [← bytes_parse script]
  rw [whole, List.append_nil, forms]

/-- Items that are not too long, and not too many, have such a script: that of their shortest
pushes. -/
theorem evaluate_of_shortest {items : List Bytes}
    (short : ∀ item ∈ items, item.length ≤ Limit.pushSize)
    (size : (bytes (items.map .shortest)).length ≤ Limit.scriptSize)
    (room : stack.length + items.length ≤ Limit.stackItems) :
    isPushOnly (bytes (items.map .shortest)) = true ∧
      ∃ m, evaluate flags checker version (bytes (items.map .shortest)) stack journal =
        .running m ∧
        m.stack = items.reverse ++ stack := by
  have fits : ∀ i ∈ items.map Instruction.shortest, i.Fits := by
    refine List.forall_mem_map.2 fun item mem => Instruction.fits_shortest ?_
    exact (short item mem).trans_lt (by decide)
  have parsed := @parse_bytes_append [] _ fits rfl
  rw [List.append_nil] at parsed
  have listed : instructions (bytes (items.map .shortest)) = items.map .shortest := by
    rw [instructions, parsed]
  have push : isPushOnly (bytes (items.map .shortest)) = true := by
    refine isPushOnly_iff.2 ⟨by rw [tail, parsed], ?_⟩
    rw [listed, List.all_map, List.all_eq_true]
    exact fun item _ => Instruction.isPush_shortest item
  refine ⟨push, ?_⟩
  rw [evaluate_of_isPushOnly push size, listed]
  exact Machine.run_of_shortest short rfl (by simpa using room)

/-- An evaluation of pushes heaps items on the stack that it starts with, however it ends. -/
theorem evaluate_heaps (push : isPushOnly script = true) :
    Machine.Heaps { stack, journal }
      (evaluate flags checker version script stack journal).machine := by
  by_cases size : script.length ≤ Limit.scriptSize
  · rw [evaluate_of_isPushOnly push size]
    exact Machine.run_heaps (fun _ => fits_of_mem_instructions) (isPushOnly_iff.1 push).2 rfl
  · rw [evaluate, if_pos (Nat.lt_of_not_le size)]
    exact ⟨[], 0, rfl⟩

/-- So does every machine on the way. -/
theorem Reaches.heaps {env : Env} {taken : List Instruction} (push : isPushOnly env.script = true)
    (reached : Reaches env stack journal taken m) : Machine.Heaps { stack, journal } m := by
  have pushes : taken.all Instruction.isPush = true := by
    refine List.all_eq_true.2 fun i mem => ?_
    exact List.all_eq_true.1 (isPushOnly_iff.1 push).2 i (reached.front.subset mem)
  have heaps := @Machine.run_heaps env taken { stack, journal }
    (fun i mem => fits_of_mem_instructions (reached.front.subset mem)) pushes rfl
  rw [reached.ran] at heaps
  exact heaps

/-- An evaluation of pushes fails for one of a few reasons, and never breaks down. -/
theorem evaluate_pushes_halted (push : isPushOnly script = true)
    (halts : evaluate flags checker version script stack journal = .halted stop m) :
    ∃ e, stop = .failed e ∧ PushFailure flags script m e := by
  by_cases size : script.length ≤ Limit.scriptSize
  · have alt : m.alt = [] := by
      obtain ⟨items, position, left⟩ :=
        @evaluate_heaps flags checker version script stack journal push
      rw [halts] at left
      exact congrArg Machine.alt left
    rw [evaluate_of_isPushOnly push size] at halts
    obtain ⟨e, failed, ⟨i, mem, refused⟩ | ⟨rfl, crowded⟩⟩ := Machine.run_pushes_halted
      (fun _ => fits_of_mem_instructions) (isPushOnly_iff.1 push).2 rfl halts
    · exact ⟨e, failed, .refused mem refused⟩
    · rw [alt, List.length_nil, Nat.add_zero] at crowded
      exact ⟨_, failed, .stackSize crowded⟩
  · have large := Nat.lt_of_not_le size
    rw [evaluate, if_pos large] at halts
    obtain ⟨rfl, -⟩ := Outcome.halted.inj halts
    exact ⟨_, rfl, .scriptSize large⟩

/-- An evaluation of pushes depends on nothing but the flags. -/
theorem evaluate_pushes_congr {checker' : Checker} {version' : SigVersion}
    (push : isPushOnly script = true) :
    evaluate flags checker version script stack journal =
      evaluate flags checker' version' script stack journal := by
  by_cases size : script.length ≤ Limit.scriptSize
  · rw [evaluate_of_isPushOnly push size, evaluate_of_isPushOnly push size]
    exact Machine.run_pushes_congr rfl (isPushOnly_iff.1 push).2 rfl
  · rw [evaluate, evaluate, if_pos (Nat.lt_of_not_le size), if_pos (Nat.lt_of_not_le size)]

/-- **Scripts of pushes are not malleable.** Two of them that run through under `Flag.minimalData`
from one stack and leave one stack are one script. The evaluation of such a script asks nothing and
counts no operation, on the way and in the end, is the same for every checker, and if it fails, it
does so for one of the reasons of `PushFailure`. -/
theorem pushes_not_malleable (push : isPushOnly script = true) :
    (∀ flags script' checker checker' version version' stack journal journal' m m',
      flags.has .minimalData = true → isPushOnly script' = true →
      evaluate flags checker version script stack journal = .running m →
      evaluate flags checker' version' script' stack journal' = .running m' →
      m.stack = m'.stack → script = script') ∧
    ∀ flags checker version stack journal,
      (∀ taken m, Reaches ⟨flags, checker, version, script⟩ stack journal taken m →
        m.journal = journal ∧ m.opCount = 0) ∧
      (evaluate flags checker version script stack journal).machine.journal = journal ∧
      (evaluate flags checker version script stack journal).machine.opCount = 0 ∧
      (∀ checker' version', evaluate flags checker' version' script stack journal =
        evaluate flags checker version script stack journal) ∧
      ∀ stop m, evaluate flags checker version script stack journal = .halted stop m →
        ∃ e, stop = .failed e ∧ PushFailure flags script m e := by
  refine ⟨?_, fun flags checker version stack journal => ?_⟩
  · intro flags script' checker checker' version version' stack journal journal' m m'
      minimal push' ran
      ran' same
    obtain ⟨items, rfl, left⟩ := evaluate_shortest minimal push ran
    obtain ⟨items', rfl, left'⟩ := evaluate_shortest minimal push' ran'
    rw [left, left'] at same
    rw [List.reverse_injective (List.append_cancel_right same)]
  · obtain ⟨items, position, left⟩ :=
      @evaluate_heaps flags checker version script stack journal push
    refine ⟨?_, congrArg Machine.journal left, congrArg Machine.opCount left,
      fun _ _ => evaluate_pushes_congr push, fun _ _ => evaluate_pushes_halted push⟩
    intro taken m reached
    obtain ⟨items, position, rfl⟩ := reached.heaps push
    exact ⟨rfl, rfl⟩

/-- Three numbers and two bytes have one script, whoever writes it; and five has another form than
behind its length, which is refused. -/
theorem numbers_not_malleable :
    [0x00, 0x51, 0x4f, 0x02, 7, 8] = build [.number 0, .number 1, .number (-1), .data [7, 8]] ∧
      PushFailure (.single .minimalData) [0x01, 5] { position := 2 } .minimalData := by
  have written : isPushOnly [0x00, 0x51, 0x4f, 0x02, 7, 8] = true := by decide +kernel
  have built : isPushOnly (build [.number 0, .number 1, .number (-1), .data [7, 8]]) = true := by
    decide +kernel
  have long : isPushOnly [0x01, 5] = true := by decide +kernel
  have ran : evaluate (.single .minimalData) .base .legacy [0x00, 0x51, 0x4f, 0x02, 7, 8] [] {} =
      .running { stack := [[7, 8], [0x81], [1], []], position := 6 } := by
    decide +kernel
  have ran' : evaluate (.single .minimalData) (.listed [] true true none none) .witnessV0
      (build [.number 0, .number 1, .number (-1), .data [7, 8]]) [] { coldStake := true } =
      .running
        { stack := [[7, 8], [0x81], [1], []], position := 6,
          journal := { coldStake := true } } := by
    decide +kernel
  have halts : evaluate (.single .minimalData) .base .legacy [0x01, 5] [] {} =
      .halted (.failed .minimalData) { position := 2 } := by decide +kernel
  refine ⟨(pushes_not_malleable written).1 _ _ _ _ _ _ _ _ _ _ _ (by decide) built ran ran' rfl,
    ?_⟩
  obtain ⟨-, -, -, -, reasons⟩ := (pushes_not_malleable long).2 _ .base .legacy [] {}
  obtain ⟨e, failed, reason⟩ := reasons _ _ halts
  obtain rfl := Stop.failed.inj failed
  exact reason

end Script

end BlockRules
