import Mathlib
import BlockRules.Proofs.Script.Pushes
import BlockRules.Script.Template
import BlockRules.Wide.Lemmas

/-!
# Scripts that ask for a key by its hash

`Script.payToKeyHash` copies the top item, a key, compares its hash with the one it holds, and
checks the signature below. In the version for witnesses, where the whole script is signed, it
leaves a single true item on a signature and a key exactly if the hash is right, the flags admit
the form of both, and the checker says that the signature is good
(`Script.evaluate_payToKeyHash_iff`).

A bad signature need not stop the script. It then leaves a false item, which is why the direction
from the evaluation to the signature asks for a true one (`Machine.checkSig_inv`).
-/

namespace BlockRules

namespace Machine

variable {env : Env} {m m' : Machine} {i : Instruction} {key sig code : Bytes} {rest : Stack Bytes}

/-- Without a code separator the whole script is signed by a witness. -/
theorem signedCode_of_start (start : m.codeStart = 0) (version : env.version = .witnessV0)
    (sigs : List Bytes) : m.signedCode env sigs = .ok env.script := by
  rw [signedCode, start, version, if_neg (Nat.not_lt_zero _), List.drop_zero]

/-- A good signature leaves a true item. -/
theorem checkSig_of_yes (items : m.stack = key :: sig :: rest)
    (signed : m.signedCode env [sig] = .ok code)
    (forms : env.flags.checkForms env.version sig key = .ok ())
    (good : env.checker.respond m.journal.calls (.signature sig key code env.version) = .yes) :
    ∃ journal, m.checkSig env false =
      .running { m with stack := boolItem true :: rest, journal } := by
  simp only [checkSig, items, signed, forms, Journal.ask, good]
  exact ⟨_, rfl⟩

/-- A check that runs on has found that both forms are right. The signature is good, or a false item
is left. -/
theorem checkSig_inv (items : m.stack = key :: sig :: rest)
    (signed : m.signedCode env [sig] = .ok code)
    (ran : m.checkSig env false = .running m') :
    env.flags.checkForms env.version sig key = .ok () ∧
      (env.checker.respond m.journal.calls (.signature sig key code env.version) = .yes ∨
        m'.stack = boolItem false :: rest) := by
  simp only [checkSig, items, signed] at ran
  rcases forms : env.flags.checkForms env.version sig key with stop | ⟨⟩
  · rw [forms] at ran
    cases ran
  · refine ⟨rfl, ?_⟩
    rcases reply : env.checker.respond m.journal.calls (.signature sig key code env.version) with
      _ | _ | text
    · exact .inl rfl
    · simp only [forms, Journal.ask, reply] at ran
      split at ran
      next => cases ran
      next =>
        obtain rfl := Outcome.running.inj ran
        exact .inr rfl
    · simp only [forms, Journal.ask, reply] at ran
      cases ran

/-- Comparing an item with itself takes both copies away. -/
theorem equalVerify_of_eq {a : Bytes} (items : m.stack = a :: a :: rest) :
    (m.count i).perform env (.equal true) = .running { m.count i with stack := rest } := by
  have counted : (m.count i).stack = a :: a :: rest := items
  simp only [perform, counted, conclude, whenVerified, if_true, BEq.rfl]

/-- A comparison that runs on has found the same item twice. -/
theorem equalVerify_inv {a b : Bytes} (items : m.stack = b :: a :: rest)
    (ran : (m.count i).perform env (.equal true) = .running m') :
    a = b ∧ m' = { m.count i with stack := rest } := by
  have counted : (m.count i).stack = b :: a :: rest := items
  simp only [perform, counted, conclude, whenVerified, if_true] at ran
  split at ran
  next same => exact ⟨eq_of_beq same, (Outcome.running.inj ran).symm⟩
  next => cases ran

end Machine

namespace Script

variable {flags : Flags} {checker : Checker} {hash : UInt160} {key sig : Bytes} {journal : Journal}
  {m : Machine}

/-- The five instructions of a payment to a key hash. -/
theorem parse_payToKeyHash (hash : UInt160) :
    parse (payToKeyHash hash) =
      ([⟨Opcode.dup, none⟩, ⟨Opcode.hash160, none⟩, .push hash.bytesLE,
        ⟨Opcode.equalVerify, none⟩, ⟨Opcode.checkSig, none⟩], []) := by
  have short : hash.bytesLE.length < 2 ^ 32 := by
    rw [hash.length_bytesLE]
    decide
  have hashes : parse [Opcode.dup, Opcode.hash160] =
      ([⟨Opcode.dup, none⟩, ⟨Opcode.hash160, none⟩], []) := by decide +kernel
  have checks : parse [Opcode.equalVerify, Opcode.checkSig] =
      ([⟨Opcode.equalVerify, none⟩, ⟨Opcode.checkSig, none⟩], []) := by decide +kernel
  rw [payToKeyHash, List.append_assoc, parse_append (by rw [tail, hashes]),
    instructions_append (by rw [tail, parse_pushData short]),
    tail_append (by rw [tail, parse_pushData short]), instructions, instructions, instructions,
    tail, hashes, checks, parse_pushData short]
  rfl

theorem size_payToKeyHash (hash : UInt160) : (payToKeyHash hash).length ≤ Limit.scriptSize := by
  have pushed := length_pushData_le hash.bytesLE
  rw [hash.length_bytesLE] at pushed
  rw [payToKeyHash, List.length_append, List.length_append, Limit.scriptSize]
  simp only [List.length_cons, List.length_nil]
  omega

/-- The machine stands before the comparison. The hash that is held and that of the key are on top
of the key and the signature, and two operations have been counted. -/
structure Compares (hash : UInt160) (key sig : Bytes) (journal : Journal) (m : Machine) : Prop where
  stack : m.stack = [hash.bytesLE, (hash160 key).bytesLE, key, sig]
  journal : m.journal = journal
  alt : m.alt = []
  conditions : m.conditions = []
  codeStart : m.codeStart = 0
  opCount : m.opCount = 2

theorem Compares.executing (h : Compares hash key sig journal m) : m.executing = true := by
  rw [Machine.executing, h.conditions]
  rfl

/-- The first three instructions run on whatever the key and the signature are. -/
theorem exists_compares (env : Env) (hash : UInt160) (key sig : Bytes) (journal : Journal)
    (is : List Instruction) :
    ∃ m, Compares hash key sig journal m ∧
      Machine.run env
        (⟨Opcode.dup, none⟩ :: ⟨Opcode.hash160, none⟩ :: .push hash.bytesLE :: is)
        { stack := [key, sig], journal } = Machine.run env is m := by
  have length : hash.bytesLE.length = 20 := hash.length_bytesLE
  have minimal : isMinimalPush (Opcode.forLength hash.bytesLE.length) hash.bytesLE = true :=
    isMinimalPush_of_length_ne_one (by omega)
  have short : hash.bytesLE.length ≤ Limit.pushSize := by
    rw [length]
    decide
  let start : Machine := { stack := [key, sig], journal }
  let copied : Machine := { start.count ⟨Opcode.dup, none⟩ with stack := [key, key, sig] }
  let hashed : Machine :=
    { copied.count ⟨Opcode.hash160, none⟩ with stack := [(hash160 key).bytesLE, key, sig] }
  let pushed : Machine := (hashed.count (.push hash.bytesLE)).push hash.bytesLE
  have first : start.step env ⟨Opcode.dup, none⟩ = .running copied :=
    Machine.step_of_perform rfl rfl (show 0 < 201 by decide) rfl rfl (show 3 ≤ 1000 by decide)
  have second : copied.step env ⟨Opcode.hash160, none⟩ = .running hashed :=
    Machine.step_of_perform rfl rfl (show 1 < 201 by decide) rfl rfl (show 3 ≤ 1000 by decide)
  have third : hashed.step env (.push hash.bytesLE) = .running pushed :=
    Machine.step_pushData short (fun _ => minimal) rfl (show 4 ≤ 1000 by decide)
  have counted : pushed.opCount = 2 := if_pos (Opcode.isPush_forLength _)
  refine ⟨pushed, ⟨rfl, rfl, rfl, rfl, rfl, counted⟩, ?_⟩
  rw [Machine.run_cons_of_step first, Machine.run_cons_of_step second,
    Machine.run_cons_of_step third]

variable {m' : Machine}

/-- What a true item at the end tells about the key and the signature. -/
theorem Compares.of_run (h : Compares hash key sig journal m) (env : Env)
    (version : env.version = .witnessV0)
    (ran : Machine.run env [⟨Opcode.equalVerify, none⟩, ⟨Opcode.checkSig, none⟩] m =
      .running m')
    {item : Bytes} (sole : m'.stack = [item]) (good : truthy item = true) :
    hash160 key = hash ∧ env.flags.checkForms env.version sig key = .ok () ∧
      env.checker.respond journal.calls (.signature sig key env.script env.version) = .yes := by
  let compared : Machine := { m.count ⟨Opcode.equalVerify, none⟩ with stack := [key, sig] }
  let last : Machine := compared.count ⟨Opcode.checkSig, none⟩
  have still : compared.executing = true := h.executing
  have signed : last.signedCode env [sig] = .ok env.script :=
    Machine.signedCode_of_start h.codeStart version [sig]
  have before : last.journal = journal := h.journal
  obtain ⟨next, first, steps⟩ := Machine.run_cons_inv ran
  obtain ⟨same, rfl⟩ :=
    Machine.equalVerify_inv h.stack (Machine.step_operation rfl h.executing first)
  obtain ⟨checked, second, steps⟩ := Machine.run_cons_inv steps
  obtain rfl := Outcome.running.inj steps
  obtain ⟨forms, yes | left⟩ :=
    Machine.checkSig_inv rfl signed (Machine.step_operation rfl still second)
  · refine ⟨?_, forms, before ▸ yes⟩
    rw [← Wide.ofBytesLE_bytesLE (hash160 key), same, Wide.ofBytesLE_bytesLE]
  · -- the signature is bad, and the script has gone on to leave a false item
    obtain ⟨rfl, -⟩ := List.cons.inj (sole.symm.trans left)
    cases good

/-- A good signature by the right key leaves a true item. -/
theorem Compares.run_of_yes (h : Compares (hash160 key) key sig journal m) (env : Env)
    (version : env.version = .witnessV0) (forms : env.flags.checkForms env.version sig key = .ok ())
    (yes : env.checker.respond journal.calls (.signature sig key env.script env.version) = .yes) :
    ∃ m', Machine.run env [⟨Opcode.equalVerify, none⟩, ⟨Opcode.checkSig, none⟩] m =
      .running m' ∧
      m'.stack = [boolItem true] ∧ m'.conditions = [] := by
  let compared : Machine := { m.count ⟨Opcode.equalVerify, none⟩ with stack := [key, sig] }
  let last : Machine := compared.count ⟨Opcode.checkSig, none⟩
  have signed : last.signedCode env [sig] = .ok env.script :=
    Machine.signedCode_of_start h.codeStart version [sig]
  have before : last.journal = journal := h.journal
  obtain ⟨after, good⟩ := Machine.checkSig_of_yes (rfl : last.stack = [key, sig]) signed forms
    (before ▸ yes)
  let checked : Machine := { last with stack := [boolItem true], journal := after }
  have first : m.step env ⟨Opcode.equalVerify, none⟩ = .running compared := by
    refine Machine.step_of_perform rfl h.executing ?_ rfl (Machine.equalVerify_of_eq h.stack) ?_
    · exact lt_of_eq_of_lt h.opCount (by decide)
    · exact le_of_eq_of_le (congrArg (2 + ·.length) h.alt) (by decide)
  have second : compared.step env ⟨Opcode.checkSig, none⟩ = .running checked := by
    refine Machine.step_of_perform rfl h.executing ?_ rfl good ?_
    · exact lt_of_eq_of_lt (congrArg (· + 1) h.opCount) (by decide)
    · exact le_of_eq_of_le (congrArg (1 + ·.length) h.alt) (by decide)
  refine ⟨checked, ?_, rfl, h.conditions⟩
  rw [Machine.run_cons_of_step first, Machine.run_singleton, second]

/-- **A key behind its hash.** On a signature and a key the script ends well with a single true item
exactly if the key has the hash, both have the right form, and the signature is good. -/
theorem evaluate_payToKeyHash_iff :
    (∃ m item, evaluate flags checker .witnessV0 (payToKeyHash hash) [key, sig] journal =
      .running m ∧
        m.stack = [item] ∧ truthy item = true) ↔
      hash160 key = hash ∧ flags.checkForms .witnessV0 sig key = .ok () ∧
        checker.respond journal.calls (.signature sig key (payToKeyHash hash) .witnessV0) =
          .yes := by
  let env : Env := { flags, checker, version := .witnessV0, script := payToKeyHash hash }
  obtain ⟨m, compares, runs⟩ :=
    exists_compares env hash key sig journal [⟨Opcode.equalVerify, none⟩,
      ⟨Opcode.checkSig, none⟩]
  constructor
  · rintro ⟨m', item, ran, sole, good⟩
    obtain ⟨steps, -, -⟩ := evaluate_inv ran
    rw [instructions, parse_payToKeyHash, runs] at steps
    exact compares.of_run env rfl steps sole good
  · rintro ⟨rfl, forms, yes⟩
    obtain ⟨m', ran, left, closed⟩ := compares.run_of_yes env rfl forms yes
    have whole : tail (payToKeyHash (hash160 key)) = [] := by rw [tail, parse_payToKeyHash]
    refine ⟨m', boolItem true, ?_, left, rfl⟩
    refine evaluate_of_run (size_payToKeyHash (hash160 key)) ?_ whole closed
    rw [instructions, parse_payToKeyHash, runs, ran]

end Script

end BlockRules
