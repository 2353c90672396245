import Mathlib
import BlockRules.Proofs.Script.Pushes

/-!
# Relative lock times

A script can ask that the input it stands for is old enough. It states how old in a number of up to
five bytes, and the input states how old it is in the 32 bits of its sequence. This module says when
the two agree, bit by bit.

* `lockBits` — what is compared: 16 bits that count, and the bit that says what they count;
* `RelativeLock.Reached` — the rule for a transaction's version and an input's sequence, on what
  is asked (`TransactionChecker.checkSequence_iff`);
* `RelativeLock.Admits` — the rule for the number on the stack. Bit 31 turns the check off,
  whatever else the number holds. Otherwise the number must fit the 32 bits of a sequence: a bit
  beyond them is not ignored but refused;
* `Machine.step_sequenceVerify` — the instruction, case by case, from which it follows that
  admitted numbers are those on which it runs on (`Machine.passes_sequenceVerify_iff`).
-/

namespace BlockRules

/-- The bits of a relative lock time: the 16 that count, and the one that tells seconds from
blocks. -/
def lockBits (n : Nat) : Nat := n &&& 0x0040ffff

namespace RelativeLock

/-- A transaction that has relative lock times, on an input that has one, of the kind that is asked
for and not shorter. -/
structure Reached (version : Int32) (sequence : UInt32) (asked : Nat) : Prop where
  versioned : 2 ≤ version.toUInt32.toNat
  enabled : sequence.toNat.testBit 31 = false
  sameKind : lockBits asked < 2 ^ 22 ↔ lockBits sequence.toNat < 2 ^ 22
  longEnough : lockBits asked ≤ lockBits sequence.toNat

/-- A number that a script may ask with. -/
def Admits (version : Int32) (sequence : UInt32) (n : Int) : Prop :=
  0 ≤ n ∧ (n.toNat.testBit 31 = true ∨ n < 2 ^ 32 ∧ Reached version sequence n.toNat)

variable {version : Int32} {sequence : UInt32} {n n' : Int}

theorem reached_congr {asked asked' : Nat} (bits : lockBits asked = lockBits asked') :
    Reached version sequence asked ↔ Reached version sequence asked' := by
  constructor <;> rintro ⟨versioned, enabled, sameKind, longEnough⟩
  · exact ⟨versioned, enabled, bits ▸ sameKind, bits ▸ longEnough⟩
  · exact ⟨versioned, enabled, bits ▸ sameKind, bits ▸ longEnough⟩

/-- Two numbers with bit 31 are treated alike, and so are two without it that fit a sequence and
agree on the bits of a lock time. -/
theorem admits_congr (natural : 0 ≤ n) (natural' : 0 ≤ n')
    (off : n.toNat.testBit 31 = n'.toNat.testBit 31)
    (alike : n.toNat.testBit 31 = true ∨
      n < 2 ^ 32 ∧ n' < 2 ^ 32 ∧ lockBits n.toNat = lockBits n'.toNat) :
    Admits version sequence n ↔ Admits version sequence n' := by
  rw [Admits, Admits, ← off, and_iff_right natural, and_iff_right natural']
  rcases alike with set | ⟨small, small', bits⟩
  · exact iff_of_true (.inl set) (.inl set)
  · rw [and_iff_right small, and_iff_right small', reached_congr bits]

end RelativeLock

open RelativeLock (Admits Reached)

/-! ## The checker -/

/-- The masked word as a number: the low bits and the bit of the unit. -/
theorem toNat_and_sequenceMask (x : UInt32) : (x &&& sequenceMask).toNat = lockBits x.toNat := by
  rw [UInt32.toNat_and, lockBits]
  rfl

theorem and_sequenceDisabled_eq_zero_iff (x : UInt32) :
    (x &&& sequenceDisabled == 0) = true ↔ x.toNat.testBit 31 = false := by
  have bit : (x &&& sequenceDisabled).toNat = (x.toNat.testBit 31).toNat * 2 ^ 31 := by
    rw [UInt32.toNat_and, ← Nat.and_two_pow]
    rfl
  rw [beq_iff_eq, ← UInt32.toNat_inj, bit]
  cases x.toNat.testBit 31 <;> decide

/-- **The checker** asks that the number fits a sequence, and that the lock time is reached. -/
theorem TransactionChecker.checkSequence_iff {c : TransactionChecker} {input : TxInput}
    (there : c.transaction.inputs[c.index]? = some input) {n : Int} :
    c.checkSequence n = true ↔
      0 ≤ n ∧ n < 2 ^ 32 ∧ Reached c.transaction.version input.sequence n.toNat := by
  have own : c.sequence? = some input.sequence := by rw [sequence?, there, Option.map_some]
  simp only [checkSequence, own, Bool.and_eq_true, decide_eq_true_iff, and_assoc]
  refine and_congr_right fun natural => ?_
  have fits : n ≤ 0xffffffff ↔ n < 2 ^ 32 := by omega
  rw [fits]
  refine and_congr_right fun small => ?_
  have word : (UInt32.ofNat n.toNat).toNat = n.toNat := by
    rw [UInt32.toNat_ofNat', Nat.mod_eq_of_lt (by omega)]
  have seconds : sequenceInSeconds.toNat = 2 ^ 22 := rfl
  have two : (2 : UInt32).toNat = 2 := rfl
  rw [and_sequenceDisabled_eq_zero_iff, beq_iff_eq, decide_eq_decide, UInt32.le_iff_toNat_le,
    UInt32.le_iff_toNat_le, UInt32.lt_iff_toNat_lt, UInt32.lt_iff_toNat_lt, toNat_and_sequenceMask,
    toNat_and_sequenceMask, word, seconds, two]
  constructor
  · rintro ⟨versioned, enabled, sameKind, longEnough⟩
    exact ⟨versioned, enabled, sameKind.symm, longEnough⟩
  · rintro ⟨versioned, enabled, sameKind, longEnough⟩
    exact ⟨versioned, enabled, sameKind.symm, longEnough⟩

/-! ## The instruction -/

/-- The instruction that asks for a relative lock time. -/
def Instruction.sequenceVerify : Instruction := ⟨0xb2, none⟩

namespace Machine

variable {env : Env} {m : Machine} {item : Bytes} {rest : Stack Bytes} {n : Int}
  {c : TransactionChecker}
  {input : TxInput}

/-- The instruction is followed by the check of the stack size. Before that it fails on a number
below zero, does nothing if bit 31 is set, and asks the checker otherwise. -/
theorem step_sequenceVerify (flag : env.flags.has .checkSequenceVerify = true)
    (executing : m.executing = true) (few : m.opCount < Limit.operations)
    (top : m.stack = item :: rest)
    (number : ScriptNum.decode (env.flags.has .minimalData) Limit.lockTime item = .ok n) :
    m.step env .sequenceVerify = checkStackSize
      (if n < 0 then (m.count .sequenceVerify).fail .negativeLockTime
      else if n.toNat.testBit 31 then .running (m.count .sequenceVerify)
      else (m.count .sequenceVerify).askTime env (.sequence n)) := by
  have items : (m.count .sequenceVerify).stack = item :: rest := top
  have meant : Operation.ofOpcode Instruction.sequenceVerify.opcode = .checkSequence := by decide
  have read : env.flags.readNumber Limit.lockTime item = .ok n := by rw [Flags.readNumber, number]
  rw [step_eq_perform rfl executing few (by decide), meant]
  simp only [perform, flag, if_true, checkSequence, items, read]

/-- An instruction runs on, up to the check of the stack size, and leaves both stacks as they
are. -/
def Passes (env : Env) (i : Instruction) (m : Machine) : Prop :=
  ∃ after, m.step env i = checkStackSize (.running after) ∧ after.stack = m.stack ∧
    after.alt = m.alt

/-- What the check of the stack size makes of a broken rule it does not make of a machine that runs
on. -/
theorem checkStackSize_fail_ne {m after : Machine} {e : ScriptError} (other : e ≠ .stackSize) :
    checkStackSize (m.fail e) ≠ checkStackSize (.running after) := by
  intro same
  simp only [checkStackSize, fail] at same
  split at same
  next => exact other (Stop.failed.inj (Outcome.halted.inj same).1)
  next => cases same

/-- The checker of a transaction answers yes or no. -/
theorem askTime_of_asks (asks : env.checker = c.toChecker) (q : Query) :
    m.askTime env q =
      if c.respond q then .running { m with journal := (m.journal.ask env.checker q).2 }
      else ({ m with journal := (m.journal.ask env.checker q).2 } : Machine).fail
        .unsatisfiedLockTime := by
  rw [askTime, asks]
  simp only [Journal.ask, TransactionChecker.toChecker]
  cases c.respond q <;> rfl

/-- An instruction ends the script with an error and leaves both stacks as they are. -/
def FailsWith (env : Env) (i : Instruction) (e : ScriptError) (m : Machine) : Prop :=
  ∃ after : Machine, m.step env i = after.fail e ∧ after.stack = m.stack ∧ after.alt = m.alt

/-- An instruction that fails with an error other than that of the stack's size does not pass. -/
theorem FailsWith.not_passes {i : Instruction} {e : ScriptError} (fails : m.FailsWith env i e)
    (other : e ≠ .stackSize) : ¬m.Passes env i := by
  obtain ⟨after, step, -⟩ := fails
  rintro ⟨after', same, -⟩
  exact checkStackSize_fail_ne other (step.symm.trans same)

/-- **The instruction** passes on the numbers that are admitted, and fails on the others. -/
theorem sequenceVerify_cases (flag : env.flags.has .checkSequenceVerify = true)
    (asks : env.checker = c.toChecker) (there : c.transaction.inputs[c.index]? = some input)
    (executing : m.executing = true) (few : m.opCount < Limit.operations)
    (top : m.stack = item :: rest)
    (number : ScriptNum.decode (env.flags.has .minimalData) Limit.lockTime item = .ok n) :
    Admits c.transaction.version input.sequence n ∧ m.Passes env .sequenceVerify ∨
      ¬Admits c.transaction.version input.sequence n ∧ m.FailsWith env .sequenceVerify
        (if n < 0 then .negativeLockTime else .unsatisfiedLockTime) := by
  have answer : c.respond (.sequence n) = c.checkSequence n := rfl
  rw [Passes, FailsWith, step_sequenceVerify flag executing few top number, askTime_of_asks asks,
    answer, Admits]
  by_cases negative : n < 0
  · rw [if_pos negative, if_pos negative]
    exact .inr ⟨fun admits => absurd admits.1 (Int.not_le.2 negative), _, rfl, rfl, rfl⟩
  have natural : 0 ≤ n := Int.not_lt.1 negative
  rw [if_neg negative, if_neg negative, and_iff_right natural]
  by_cases off : n.toNat.testBit 31 = true
  · rw [if_pos off]
    exact .inl ⟨.inl off, _, rfl, rfl, rfl⟩
  rw [if_neg off, or_iff_right off]
  have met := TransactionChecker.checkSequence_iff there (n := n)
  rw [and_iff_right natural] at met
  rw [← met]
  by_cases yes : c.checkSequence n = true
  · rw [if_pos yes]
    exact .inl ⟨yes, _, rfl, rfl, rfl⟩
  · rw [if_neg yes]
    exact .inr ⟨yes, _, rfl, rfl, rfl⟩

theorem passes_sequenceVerify_iff (flag : env.flags.has .checkSequenceVerify = true)
    (asks : env.checker = c.toChecker) (there : c.transaction.inputs[c.index]? = some input)
    (executing : m.executing = true) (few : m.opCount < Limit.operations)
    (top : m.stack = item :: rest)
    (number : ScriptNum.decode (env.flags.has .minimalData) Limit.lockTime item = .ok n) :
    m.Passes env .sequenceVerify ↔ Admits c.transaction.version input.sequence n := by
  rcases sequenceVerify_cases flag asks there executing few top number with
    ⟨admits, passes⟩ | ⟨refuses, fails⟩
  · exact iff_of_true passes admits
  · exact iff_of_false (fails.not_passes (by split <;> decide)) refuses

/-- **Relative lock times.** Where they are checked, take any branch that is executed, with
operations left to count, and on top of the stack an item that stands for a number: of at most five
bytes, and the shortest one if the flags ask for it. Let the checker answer for an input of a
transaction.

* The instruction runs on, up to the check of the stack size and with both stacks as they were,
  exactly if the number is not negative and has bit 31 set or, without it, fits 32 bits, while the
  version of the transaction is at least two as a word, the sequence of the input has bit 31 clear,
  and the bits of `0x0040ffff` in the number and in the sequence are on the same side of `2 ^ 22`
  and not more in the number than in the sequence.
* Otherwise it fails, with both stacks as they were: because the number is negative, or else because
  the lock time is not reached. That is so for every number without bit 31 that does not fit 32
  bits.
* With bit 31 set, no other bit of the number makes a difference. Without it, none does outside of
  that mask, among numbers of 32 bits. -/
theorem sequenceVerify_iff_admits (flag : env.flags.has .checkSequenceVerify = true)
    (asks : env.checker = c.toChecker) (there : c.transaction.inputs[c.index]? = some input)
    (executing : m.executing = true) (few : m.opCount < Limit.operations)
    (top : m.stack = item :: rest)
    (number : ScriptNum.decode (env.flags.has .minimalData) Limit.lockTime item = .ok n) :
    (m.Passes env .sequenceVerify ↔ 0 ≤ n ∧ (n.toNat.testBit 31 = true ∨
        n < 2 ^ 32 ∧ 2 ≤ c.transaction.version.toUInt32.toNat ∧
        input.sequence.toNat.testBit 31 = false ∧
        (n.toNat &&& 0x0040ffff < 2 ^ 22 ↔ input.sequence.toNat &&& 0x0040ffff < 2 ^ 22) ∧
        n.toNat &&& 0x0040ffff ≤ input.sequence.toNat &&& 0x0040ffff)) ∧
    (¬m.Passes env .sequenceVerify → m.FailsWith env .sequenceVerify
      (if n < 0 then .negativeLockTime else .unsatisfiedLockTime)) ∧
    (n.toNat.testBit 31 = false → 2 ^ 32 ≤ n →
      m.FailsWith env .sequenceVerify .unsatisfiedLockTime) ∧
    ∀ item' n', ScriptNum.decode (env.flags.has .minimalData) Limit.lockTime item' = .ok n' →
      0 ≤ n → 0 ≤ n' → n.toNat.testBit 31 = n'.toNat.testBit 31 →
      (n.toNat.testBit 31 = true ∨
        n < 2 ^ 32 ∧ n' < 2 ^ 32 ∧ n.toNat &&& 0x0040ffff = n'.toNat &&& 0x0040ffff) →
      (m.Passes env .sequenceVerify ↔
        ({ m with stack := item' :: rest } : Machine).Passes env .sequenceVerify) := by
  have passes := passes_sequenceVerify_iff flag asks there executing few top number
  have fails : ¬m.Passes env .sequenceVerify → m.FailsWith env .sequenceVerify
      (if n < 0 then .negativeLockTime else .unsatisfiedLockTime) := by
    intro refused
    rcases sequenceVerify_cases flag asks there executing few top number with
      ⟨-, passed⟩ | ⟨-, fails⟩
    · exact absurd passed refused
    · exact fails
  refine ⟨?_, fails, ?_, ?_⟩
  · rw [passes, Admits]
    refine and_congr_right' (or_congr_right (and_congr_right' ?_))
    constructor
    · rintro ⟨versioned, enabled, sameKind, longEnough⟩
      exact ⟨versioned, enabled, sameKind, longEnough⟩
    · rintro ⟨versioned, enabled, sameKind, longEnough⟩
      exact ⟨versioned, enabled, sameKind, longEnough⟩
  · intro on large
    -- neither reason to run on applies
    have refused : ¬m.Passes env .sequenceVerify := by
      rw [passes]
      rintro ⟨-, off | ⟨small, -⟩⟩
      · rw [on] at off
        cases off
      · omega
    have failure := fails refused
    rwa [if_neg (by omega)] at failure
  · intro item' n' number' natural natural' off alike
    have passes' :=
      passes_sequenceVerify_iff (m := { m with stack := item' :: rest }) flag asks there
      executing few rfl number'
    rw [passes, passes']
    exact RelativeLock.admits_congr natural natural' off alike

/-- A transaction of version two, with one input that is ten blocks old. -/
def tenBlocksOld : TransactionChecker where
  transaction :=
    { version := 2, inputs := [⟨⟨Wide.one, 0⟩, [], 10, []⟩], outputs := [], lockTime := 0 }
  index := 0
  amount := 0

/-- Ten blocks may be asked for, whatever else a number of 32 bits holds. -/
theorem ten_blocks_admitted :
    let env : Env := ⟨.single .checkSequenceVerify, tenBlocksOld.toChecker, .legacy, [0xb2]⟩
    let m : Machine := { stack := [[0x0a]] }
    env.flags.has .checkSequenceVerify = true ∧ m.executing = true ∧
      m.opCount < Limit.operations ∧
      ScriptNum.decode (env.flags.has .minimalData) Limit.lockTime [0x0a] = .ok 10 ∧
      m.Passes env .sequenceVerify ∧
      ({ m with stack := [[0x0a, 0x00, 0xbf, 0x7f]] } : Machine).Passes env .sequenceVerify := by
  intro env m
  have there : tenBlocksOld.transaction.inputs[tenBlocksOld.index]? = some
      ⟨⟨Wide.one, 0⟩, [], 10, []⟩ := rfl
  have number : ScriptNum.decode (env.flags.has .minimalData) Limit.lockTime [0x0a] = .ok 10 := by
    decide
  have other :
    ScriptNum.decode (env.flags.has .minimalData) Limit.lockTime [0x0a, 0x00, 0xbf, 0x7f] =
      .ok 0x7fbf000a := by decide
  have flag : env.flags.has .checkSequenceVerify = true := by decide
  have top : m.stack = [0x0a] :: [] := rfl
  obtain ⟨passes, -, -, alike⟩ :=
    sequenceVerify_iff_admits flag rfl there rfl (by decide) top number
  have old : m.Passes env .sequenceVerify := passes.2 ⟨by decide, .inr (by decide)⟩
  exact ⟨flag, rfl, by decide, number, old,
    (alike _ _ other (by decide) (by decide) (by decide) (.inr (by decide))).1 old⟩

/-- A bit beyond the 32 of a sequence is not ignored: a number of five bytes that has none of the
bits that are looked at asks for nothing, but is refused. -/
theorem high_bit_refused :
    let env : Env := ⟨.single .checkSequenceVerify, tenBlocksOld.toChecker, .legacy, [0xb2]⟩
    let m : Machine := { stack := [[0x00, 0x00, 0x00, 0x00, 0x01]] }
    let sequence : UInt32 := 10
    env.flags.has .checkSequenceVerify = true ∧
      tenBlocksOld.transaction.inputs[tenBlocksOld.index]?.map TxInput.sequence = some sequence ∧
      m.executing = true ∧ m.opCount < Limit.operations ∧
      ScriptNum.decode (env.flags.has .minimalData) Limit.lockTime [0x00, 0x00, 0x00, 0x00, 0x01] =
        .ok (2 ^ 32) ∧
      (0 ≤ (2 ^ 32 : Int) ∧ 2 ≤ tenBlocksOld.transaction.version.toUInt32.toNat ∧
        sequence.toNat.testBit 31 = false ∧
        (2 ^ 32 &&& 0x0040ffff < 2 ^ 22 ↔ sequence.toNat &&& 0x0040ffff < 2 ^ 22) ∧
        2 ^ 32 &&& 0x0040ffff ≤ sequence.toNat &&& 0x0040ffff) ∧
      ¬ m.Passes env .sequenceVerify := by
  intro env m sequence
  have flag : env.flags.has .checkSequenceVerify = true := by decide
  have number : ScriptNum.decode (env.flags.has .minimalData) Limit.lockTime
      [0x00, 0x00, 0x00, 0x00, 0x01] = .ok (2 ^ 32) := by decide
  refine ⟨flag, rfl, rfl, by decide, number, by decide, ?_⟩
  rw [passes_sequenceVerify_iff (m := m) flag rfl rfl rfl (by decide) rfl number]
  rintro ⟨-, off | ⟨small, -⟩⟩
  · exact absurd off (by decide)
  · exact lt_irrefl _ small

end Machine

end BlockRules
