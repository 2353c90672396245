import Mathlib
import BlockRules.Proofs.Script.Rounds
import BlockRules.Proofs.Script.Separators
import BlockRules.Proofs.Script.SignMagnitude

/-!
# Limits

No item that comes onto a stack in the course of an evaluation is longer than a push may be,
although only pushes are checked. The other operations either move items, or bring up numbers, truth
values and hashes, and those are short.

* `ScriptNum.length_encode_le_of_natAbs` — the numbers that operations leave are short;
* `Machine.Short` — the invariant: no item on either stack is too long;
* `Machine.Supplies.short` — it holds of everything that an operation can leave on a stack. The
  number of the items is among that, and it is short only because there is room for them;
* `Machine.step_short` — so every step keeps the invariant, and by induction every run;
* `Script.limits_hold` — all the limits together, wherever an evaluation comes to, and that every
  round of a verification starts within them.
-/

namespace BlockRules

/-! ## Numbers -/

namespace ScriptNum

/-- A number that needs no more than 64 bits is short. -/
theorem length_encode_le_of_natAbs {v : Int} (small : v.natAbs < 2 ^ 64) :
    (encode v).length ≤ Limit.pushSize := by
  have size : (encode v).length ≤ 8 + 1 := length_encode_le_iff.2 (small.trans_le (by norm_num))
  exact size.trans (by decide)

end ScriptNum

theorem natAbs_of_signed64 {n v : Int} (word : signed64 n = .ok v) : v.natAbs < 2 ^ 64 := by
  rw [signed64] at word
  split at word
  next =>
    obtain rfl := Except.ok.inj word
    omega
  next => cases word

/-- The numbers that opcodes push fit a word. -/
theorem Operation.natAbs_of_ofOpcode {op : UInt8} {n : Int} (number : ofOpcode op = .number n) :
    n.natAbs < 2 ^ 64 := by
  rw [ofOpcode] at number
  split at number
  next =>
    obtain rfl := Operation.number.inj number
    decide
  next =>
  split at number
  next =>
    obtain rfl := Operation.number.inj number
    have byte := op.toNat_lt
    omega
  next =>
  split at number
  next =>
    rcases entry : table[op.toNat - 0x61]? with _ | o
    · rw [entry] at number
      cases number
    · rw [entry, Option.getD_some] at number
      have listed := List.mem_of_getElem? entry
      rw [number] at listed
      simp [table] at listed
  next => cases number

/-- A hash is short, whatever is hashed. -/
theorem HashOp.length_apply_le (f : HashOp) (item : Bytes) :
    (f.apply item).length ≤ Limit.pushSize := by
  cases f <;>
    simp only [HashOp.apply, length_ripemd160, length_sha1, length_sha256, Wide.length_bytesLE] <;>
      decide

/-! ## Machines -/

/-- None of the items is longer than a push may be. -/
def ShortItems (items : List Bytes) : Prop := ∀ item ∈ items, item.length ≤ Limit.pushSize

theorem shortItems_nil : ShortItems [] := nofun

namespace Machine

variable {env : Env} {m m' : Machine} {i : Instruction} {op : Operation}

/-- No item on either stack is longer than a push may be. -/
def Short (m : Machine) : Prop := ShortItems m.stack ∧ ShortItems m.alt

/-- What an operation supplies is short, if a number that it pushes is, and the number of items if
that is what it leaves. -/
theorem Supplies.short {item : Bytes} (made : m.Supplies op item) (h : m.Short)
    (small : ∀ n, op = .number n → n.natAbs < 2 ^ 64)
    (few : op = .arrange .depth → m.stack.length ≤ Limit.stackItems) :
    item.length ≤ Limit.pushSize := by
  have encoded {n : Nat} (bound : n ≤ 1000) : (ScriptNum.encode n).length ≤ Limit.pushSize :=
    ScriptNum.length_encode_le_of_natAbs (by omega)
  cases made with
  | main mem => exact h.1 _ mem
  | alt mem => exact h.2 _ mem
  | truth holds => cases holds <;> decide
  | number push => exact ScriptNum.length_encode_le_of_natAbs (small _ push)
  | word calculated => exact ScriptNum.length_encode_le_of_natAbs (natAbs_of_signed64 calculated)
  | hash f hashed => exact f.length_apply_le hashed
  | depth counts => exact encoded (few counts)
  | size mem =>
    have short : _ ≤ 520 := h.1 _ mem
    exact encoded (by omega)

/-- **Operations of opcodes keep the items short**, if there are not more items than allowed. -/
theorem perform_short {code : UInt8} (h : m.Short)
    (ran : m.perform env (.ofOpcode code) = .running m')
    (room : m'.stack.length ≤ Limit.stackItems) :
    m'.Short := by
  have frame := perform_frame env (.ofOpcode code) m
  have short {item : Bytes} (made : m.Supplies (.ofOpcode code) item) : item.length ≤
      Limit.pushSize := by
    refine made.short h (fun n => Operation.natAbs_of_ofOpcode) fun depth => ?_
    -- the number of items is itself one item more
    rw [depth] at ran
    obtain rfl := Outcome.running.inj ran
    exact (Nat.le_succ _).trans room
  rw [ran] at frame
  exact ⟨fun item mem => short (frame.stack item mem),
    fun item mem => short (frame.alt item mem)⟩

/-- **A step keeps the items short.** Pushes are checked, and after every instruction the number of
items. -/
theorem step_short (h : m.Short) (ran : m.step env i = .running m') : m'.Short := by
  obtain ⟨data, -, -, done, room⟩ := step_running_iff.1 ran
  have counted : (m.count i).Short := h
  rw [execute] at done
  rcases pushed : i.data with _ | item <;> rw [pushed] at done <;> dsimp only at done
  · split at done
    next => exact perform_short counted done (by omega)
    next =>
      obtain rfl := Outcome.running.inj done
      exact counted
  · split at done
    next =>
      split at done
      next => cases done
      next =>
        obtain rfl := Outcome.running.inj done
        exact ⟨List.forall_mem_cons.2 ⟨data item pushed, counted.1⟩, counted.2⟩
    next =>
      obtain rfl := Outcome.running.inj done
      exact counted

end Machine

namespace Script

variable {env : Env} {stack : Stack Bytes} {journal : Journal} {taken : List Instruction}
  {m : Machine}

/-- Wherever an evaluation comes to that starts from short items, the items are short. -/
theorem Reaches.short (h : Reaches env stack journal taken m) (short : ShortItems stack) :
    m.Short := by
  induction taken using List.reverseRecOn generalizing m with
  | nil =>
    obtain rfl := Outcome.running.inj h.ran
    exact ⟨short, shortItems_nil⟩
  | append_singleton taken i ih =>
    obtain ⟨n, earlier, stepped⟩ := h.concat_inv
    exact Machine.step_short (ih earlier) stepped

/-- After each instruction there are no more items than allowed. -/
theorem Reaches.room (h : Reaches env stack journal taken m) (some : taken ≠ []) :
    m.stack.length + m.alt.length ≤ Limit.stackItems := by
  obtain ⟨before, i, rfl⟩ := (List.eq_nil_or_concat' taken).resolve_left some
  obtain ⟨n, -, stepped⟩ := h.concat_inv
  obtain ⟨-, -, -, -, room⟩ := Machine.step_running_iff.1 stepped
  exact room

/-! ## Rounds -/

variable {judge : Judge} {rounds : List Round}

/-- The rounds start from short items. -/
def ShortRounds (rounds : List Round) : Prop := ∀ round ∈ rounds, ShortItems round.stack

theorem shortRounds_nil : ShortRounds [] := nofun

theorem shortRounds_singleton {round : Round} (short : ShortItems round.stack) :
    ShortRounds [round] :=
  List.forall_mem_singleton.2 short

theorem ShortRounds.append {later : List Round} (h : ShortRounds rounds) (h' : ShortRounds later) :
    ShortRounds (rounds ++ later) := List.forall_mem_append.2 ⟨h, h'⟩

/-- What follows a run has to be short only if the run did not end with an error. -/
theorem shortRounds_roundsAfter {r : Run} {next : Run → List Round}
    (h : r.stop = none → ShortRounds (next r)) : ShortRounds (r.roundsAfter next) := by
  rw [Run.roundsAfter]
  rcases stopped : r.stop with _ | stop
  · exact h stopped
  · exact shortRounds_nil

/-- A script that ends well leaves short items. -/
theorem resume_short {version : SigVersion} {script : Bytes} {r : Run} (short : ShortItems r.stack)
    (running : (resume judge version script r).stop = none) :
    ShortItems (resume judge version script r).stack := by
  rw [resume] at running ⊢
  rcases ran : evaluate judge.flags judge.checker version script r.stack r.journal
    with m | ⟨stop, m⟩
  · exact ((reaches_of_evaluate ran).short short).1
  · rw [ran] at running
    cases running

/-- A witness script starts only with items that were measured before. -/
theorem witnessRounds_short {script : Bytes} {witness : List Bytes} {journal : Journal} :
    ShortRounds (witnessRounds script witness journal) := by
  rw [witnessRounds]
  split
  next => exact shortRounds_nil
  next short =>
    refine shortRounds_singleton fun item mem => ?_
    simp only [List.any_eq_true, decide_eq_true_iff, not_exists, not_and, Nat.not_lt] at short
    exact short item (List.mem_reverse.1 mem)

theorem programRounds_short {witness : List Bytes} {version : Nat} {program : Bytes}
    {journal : Journal} :
    ShortRounds (programRounds witness version program journal) := by
  rw [programRounds]
  split
  next => exact shortRounds_nil
  next =>
  split
  next =>
    split
    next => exact shortRounds_nil
    next =>
      split
      next => exact shortRounds_nil
      next => exact witnessRounds_short
  next =>
  split
  next =>
    split
    next => exact shortRounds_nil
    next => exact witnessRounds_short
  next => exact shortRounds_nil

theorem checkWitnessRounds_short {script : Bytes} {witness : List Bytes}
    {untouched : Bool} {r : Run} :
    ShortRounds (checkWitnessRounds judge script witness untouched r) := by
  rw [checkWitnessRounds]
  split
  next =>
    split
    next => exact shortRounds_nil
    next =>
      split
      next => exact shortRounds_nil
      next => exact programRounds_short
  next => exact shortRounds_nil

/-- A redeem script starts with items that a script of pushes left. -/
theorem redeemRounds_short {scriptSig : Bytes} {witness : List Bytes}
    {pushed : Stack Bytes} {r : Run}
    (short : ShortItems pushed) : ShortRounds (redeemRounds judge scriptSig witness pushed r) := by
  simp only [redeemRounds]
  split
  next => exact shortRounds_nil
  next =>
  rcases pushed with _ | ⟨redeem, below⟩ <;> dsimp only
  · exact shortRounds_nil
  · have first : ShortItems below := (List.forall_mem_cons.1 short).2
    exact (shortRounds_singleton first).append
      (shortRounds_roundsAfter fun _ => checkWitnessRounds_short)

/-- Every round of a verification starts from short items. -/
theorem rounds_short {scriptSig scriptPubkey : Bytes} {witness : List Bytes} :
    ShortRounds (Script.rounds judge scriptSig scriptPubkey witness journal) := by
  simp only [Script.rounds]
  split
  next => exact shortRounds_nil
  next =>
  refine (shortRounds_singleton shortItems_nil).append (shortRounds_roundsAfter fun running => ?_)
  have signed := resume_short shortItems_nil running
  refine (shortRounds_singleton signed).append (shortRounds_roundsAfter fun _ => ?_)
  refine shortRounds_roundsAfter fun _ => ?_
  refine checkWitnessRounds_short.append (shortRounds_roundsAfter fun _ => ?_)
  split
  next => exact redeemRounds_short signed
  next => exact shortRounds_nil

/-- **Limits.** Take any flags, checker, version and script and a stack of items of no more than 520
bytes. Wherever the evaluation comes to, there are at most 1000 items on both stacks together, each
of no more than 520 bytes, at most 201 operations have been counted, and the signed part of the
script starts at 0 or behind a code separator that was executed before.

Every round of a verification starts from such a stack. So a script behind a hash, which the input's
script leaves on top, is no longer than 520 bytes. -/
theorem limits_hold (judge : Judge) :
    (∀ version script stack journal taken m, (∀ item ∈ stack, item.length ≤ 520) →
      Reaches ⟨judge.flags, judge.checker, version, script⟩ stack journal taken m →
      (taken ≠ [] → m.stack.length + m.alt.length ≤ 1000) ∧
      (∀ item ∈ m.stack ++ m.alt, item.length ≤ 520) ∧ m.opCount ≤ 201 ∧
      (m.codeStart = 0 ∨ Machine.Separates ⟨judge.flags, judge.checker, version, script⟩
        { stack, journal } taken m.codeStart)) ∧
    ∀ scriptSig scriptPubkey witness journal,
      (∀ round ∈ Script.rounds judge scriptSig scriptPubkey witness journal,
        ∀ item ∈ round.stack, item.length ≤ 520) ∧
      ∀ redeem below journal', resume judge .legacy scriptSig { stack := [], journal } =
        { stack := redeem :: below, journal := journal' } → redeem.length ≤ 520 := by
  refine ⟨?_, ?_⟩
  · intro version script stack journal taken m short reached
    obtain ⟨main, alt⟩ := reached.short short
    exact ⟨reached.room, List.forall_mem_append.2 ⟨main, alt⟩, reached.at_length.2.2,
      reached.isLastSeparator.own⟩
  · intro scriptSig scriptPubkey witness journal
    refine ⟨rounds_short, fun redeem below journal' signed => ?_⟩
    have running : (resume judge .legacy scriptSig { stack := [], journal }).stop = none := by
      rw [signed]
    have left := resume_short shortItems_nil running
    rw [signed] at left
    exact left redeem List.mem_cons_self

/-- An item that is copied before and after a code separator; and a script behind a hash. -/
theorem copies_within_limits :
    let env : Env := ⟨.standard, .base, .legacy, [0x76, 0xab, 0x76]⟩
    let taken : List Instruction := [⟨0x76, none⟩, .separator, ⟨0x76, none⟩]
    (∃ m, Reaches env [[1, 2, 3]] {} taken m ∧
      m.stack = [[1, 2, 3], [1, 2, 3], [1, 2, 3]] ∧ m.stack.length + m.alt.length ≤ 1000 ∧
      (∀ item ∈ m.stack ++ m.alt, item.length ≤ 520) ∧ m.opCount ≤ 201 ∧
      Machine.Separates env { stack := [[1, 2, 3]], journal := {} } taken m.codeStart) ∧
    resume ⟨.standard, .base⟩ .legacy [0x01, 0x61] { stack := [], journal := {} } =
      { stack := [[0x61]], journal := {} } ∧ [(0x61 : UInt8)].length ≤ 520 := by
  intro env taken
  obtain ⟨within, rounds⟩ := limits_hold ⟨.standard, .base⟩
  have pushed : resume ⟨.standard, .base⟩ .legacy [0x01, 0x61] { stack := [], journal := {} } =
      { stack := [[0x61]], journal := {} } := by decide +kernel
  refine ⟨?_, pushed, (rounds [0x01, 0x61] [] [] {}).2 [0x61] [] {} pushed⟩
  have reached : Reaches env [[1, 2, 3]] {} taken
      { stack := [[1, 2, 3], [1, 2, 3], [1, 2, 3]], opCount := 3, codeStart := 2, position := 3 } :=
    ⟨by decide, by decide +kernel, by decide +kernel⟩
  obtain ⟨room, short, few, start⟩ :=
    within .legacy [0x76, 0xab, 0x76] [[1, 2, 3]] {} taken _ (by simp) reached
  exact ⟨_, reached, rfl, room (by simp [taken]), short, few, start.resolve_left (by simp)⟩

end Script

end BlockRules
