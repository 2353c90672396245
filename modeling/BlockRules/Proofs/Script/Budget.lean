import Mathlib
import BlockRules.Proofs.Script.ScriptHash
import BlockRules.Proofs.Script.SignedCode
import BlockRules.Script.Context

/-!
# The budget of signature checks

Checking a signature is the one thing in a script that takes long. The number of operations that a
script may execute bounds the number of these checks as well: a single check is an operation of its
own, and a check of several signatures counts its keys as operations before it tries the first of
them.

* `Journal.Checks` — at most so many questions about signatures have been added to a journal. The
  bounds add up along a chain of journals (`Journal.Checks.trans`);
* `Machine.Covers` — the invariant: the operations that a machine has counted cover the questions
  about signatures that it has asked, with a fee to spare for the operation that comes next.
  `Machine.perform_covers` spends the fee, `Machine.step_covers` and `Machine.run_covers` keep the
  invariant up, whether the run goes on or halts;
* `Script.budget` — the bound for one script, and 0 for a script that holds no such operation.
  Scripts that only push and outputs that ask for a script by its hash hold none;
* `Script.verify_checks` — a verification comes to at most four evaluations, of which at most two
  can check signatures.
-/

namespace BlockRules

/-- A question about a signature. -/
def Query.isSignature : Query → Bool
  | .signature .. => true
  | _ => false

/-- Asks about signatures. -/
def Operation.checksSignatures : Operation → Bool
  | .checkSig _ | .checkMultiSig _ => true
  | _ => false

/-- To a journal at most `n` questions about signatures have been added, and any others. -/
def Journal.Checks (n : Nat) (j j' : Journal) : Prop :=
  ∃ asked, j'.calls = j.calls ++ asked ∧ asked.countP Query.isSignature ≤ n

namespace Journal

variable {a b n : Nat} {j j' j'' : Journal}

theorem checks_of_eq (same : j'.calls = j.calls) : j.Checks n j' :=
  ⟨[], by rw [same, List.append_nil], Nat.zero_le n⟩

/-- One query is at most one check of a signature. -/
theorem checks_of_ask {c : Checker} {q : Query} {reply : Reply} (answer : j.ask c q = (reply, j')) :
    j.Checks 1 j' := by
  obtain ⟨-, rfl⟩ := Prod.mk.inj answer
  exact ⟨[q], rfl, List.countP_le_length⟩

/-- Questions of a kind that signatures are not of cost nothing. -/
theorem Adds.checks {asks : Query → Prop} (h : j.Adds asks j')
    (other : ∀ q, asks q → q.isSignature = false) : j.Checks 0 j' := by
  obtain ⟨asked, calls, kind⟩ := h
  refine ⟨asked, calls, Nat.le_of_eq (List.countP_eq_zero.2 fun q mem => ?_)⟩
  rw [other q (kind q mem)]
  exact Bool.false_ne_true

theorem Checks.mono (h : j.Checks a j') (more : a ≤ b) : j.Checks b j' := by
  obtain ⟨asked, calls, few⟩ := h
  exact ⟨asked, calls, few.trans more⟩

/-- Checks on the way add up. -/
theorem Checks.trans (h : j.Checks a j') (h' : j'.Checks b j'') : j.Checks (a + b) j'' := by
  obtain ⟨asked, calls, few⟩ := h
  obtain ⟨asked', calls', few'⟩ := h'
  refine ⟨asked ++ asked', by rw [calls', calls, List.append_assoc], ?_⟩
  rw [List.countP_append]
  exact Nat.add_le_add few few'

end Journal

namespace Machine

variable {env : Env} {m m' : Machine} {op : Operation} {i : Instruction} {j : Journal} {fee : Nat}

/-! ## Paying for checks -/

/-- The operations counted cover the questions about signatures since a journal, and a fee on top of
them. Beyond the limit, operations count for nothing. -/
def Covers (j : Journal) (fee : Nat) (m : Machine) : Prop :=
  ∃ n, j.Checks n m.journal ∧ n + fee ≤ m.opCount ∧ n + fee ≤ Limit.operations

theorem covers_start (stack : Stack Bytes) : Covers j 0 { stack, journal := j } :=
  ⟨0, Journal.checks_of_eq rfl, Nat.le_refl 0, Nat.zero_le _⟩

namespace Covers

/-- What is asked next is covered by the fee. -/
theorem spend (h : m.Covers j fee) (asked : m.journal.Checks fee m'.journal)
    (counted : m.opCount ≤ m'.opCount) : m'.Covers j 0 := by
  obtain ⟨n, checks, few, most⟩ := h
  exact ⟨n + fee, checks.trans asked, few.trans counted, most⟩

/-- Without a question there is nothing to pay for. -/
theorem idle (h : m.Covers j fee) (same : m'.journal.calls = m.journal.calls)
    (counted : m.opCount ≤ m'.opCount) : m'.Covers j 0 :=
  h.spend (Journal.checks_of_eq same) counted

/-- An operation that is counted within the limit pays a fee. -/
theorem charge (h : m.Covers j 0) (m' : Machine) (same : m'.journal = m.journal) {price : Nat}
    (counted : m'.opCount = m.opCount + price) (few : m'.opCount ≤ Limit.operations) :
    m'.Covers j price := by
  obtain ⟨n, checks, covered, -⟩ := h
  rw [← same] at checks
  refine ⟨n, checks, ?_, ?_⟩
  · rw [counted]
    omega
  · exact le_trans (by omega) few

end Covers

/-- Keys are tried one after another, each of them at most once. -/
theorem matchKeys_checks {code : Bytes} {sigs keys : List Bytes} {journal : Journal} :
    journal.Checks keys.length (matchKeys env code sigs keys journal).2 := by
  fun_induction matchKeys env code sigs keys journal with
  | case1 => exact Journal.checks_of_eq rfl
  | case2 => exact Journal.checks_of_eq rfl
  | case3 => exact Journal.checks_of_eq rfl
  | case4 sig sigs key keys before allowed text after answer =>
    exact (Journal.checks_of_ask answer).mono (by simp)
  | case5 sig sigs key keys before allowed after answer few =>
    exact (Journal.checks_of_ask answer).mono (by simp)
  | case6 sig sigs key keys before allowed after answer enough ih =>
    exact ((Journal.checks_of_ask answer).trans ih).mono (by simp [Nat.add_comm])
  | case7 sig sigs key keys before allowed after answer few =>
    exact (Journal.checks_of_ask answer).mono (by simp)
  | case8 sig sigs key keys before allowed after answer enough ih =>
    exact ((Journal.checks_of_ask answer).trans ih).mono (by simp [Nat.add_comm])

theorem journal_conclude (ifFalse : Option ScriptError) (holds : Bool) :
    (m.conclude ifFalse holds).machine.journal = m.journal := by
  rcases ifFalse with _ | e
  · rfl
  · cases holds <;> rfl

theorem checkSig_checks (verify : Bool) :
    m.journal.Checks 1 (m.checkSig env verify).machine.journal := by
  rw [checkSig]
  split
  next key sig rest items =>
    split
    next => exact Journal.checks_of_eq rfl
    next code signed =>
      split
      next => exact Journal.checks_of_eq rfl
      next =>
        rcases answer : m.journal.ask env.checker (.signature sig key code env.version) with
          ⟨_ | _ | text, journal⟩ <;> dsimp only <;> have asked := Journal.checks_of_ask answer
        · rw [journal_conclude]
          exact asked
        · split
          next => exact asked
          next =>
            rw [journal_conclude]
            exact asked
        · exact asked
  next => exact Journal.checks_of_eq rfl

theorem opCount_conclude (ifFalse : Option ScriptError) (holds : Bool) :
    (m.conclude ifFalse holds).machine.opCount = m.opCount := by
  rcases ifFalse with _ | e
  · rfl
  · cases holds <;> rfl

/-- Settling asks nothing more and counts nothing more. -/
theorem settleMultiSig_machine (verify success : Bool) (taken : Nat) (sigs : List Bytes) :
    (settleMultiSig env verify taken sigs success m).machine.journal = m.journal ∧
      (settleMultiSig env verify taken sigs success m).machine.opCount = m.opCount := by
  rw [settleMultiSig]
  split
  next => exact ⟨rfl, rfl⟩
  next =>
    dsimp only
    split
    next => exact ⟨rfl, rfl⟩
    next =>
      split
      next => exact ⟨rfl, rfl⟩
      next => exact ⟨journal_conclude _ _, opCount_conclude _ _⟩

/-- A check of several signatures has counted its keys before it tries the first one. -/
theorem checkMultiSig_covers (h : m.Covers j 0) (verify : Bool) :
    (m.checkMultiSig env verify).machine.Covers j 0 := by
  rcases items : m.stack with _ | ⟨keyCount, belowCount⟩ <;> simp only [checkMultiSig, items]
  · exact h
  rcases readCount env Limit.keys keyCount with stop | _ | k <;> dsimp only
  · exact h.idle rfl (Nat.le_refl _)
  · exact h.idle rfl (Nat.le_refl _)
  split
  next => exact h.idle rfl (Nat.le_add_right _ _)
  next few =>
  -- from here on the keys are paid for, whatever the check comes to
  have charged :=
    h.charge { m with stack := keyCount :: belowCount, opCount := m.opCount + k } rfl rfl
    (Nat.le_of_not_lt few)
  rcases belowCount.drop k with _ | ⟨sigCount, belowKeys⟩ <;> dsimp only
  · exact charged.idle rfl (Nat.le_refl _)
  rcases readCount env k sigCount with stop | _ | s <;> dsimp only
  · exact charged.idle rfl (Nat.le_refl _)
  · exact charged.idle rfl (Nat.le_refl _)
  split
  next => exact charged.idle rfl (Nat.le_refl _)
  rcases ({ m with stack := keyCount :: belowCount, opCount := m.opCount + k } :
    Machine).signedCode env (belowKeys.take s) with fault | code <;> dsimp only
  · exact charged.idle rfl (Nat.le_refl _)
  -- one question for each key at most
  have asked : m.journal.Checks k
      (matchKeys env code (belowKeys.take s) (belowCount.take k) m.journal).2 :=
    matchKeys_checks.mono (List.length_take_le k belowCount)
  rcases matched : matchKeys env code (belowKeys.take s) (belowCount.take k) m.journal with
    ⟨stop | success, journal⟩ <;> rw [matched] at asked <;> dsimp only
  · exact charged.spend asked (Nat.le_refl _)
  · obtain ⟨same, counted⟩ := @settleMultiSig_machine env
      { m with stack := keyCount :: belowCount, opCount := m.opCount + k, journal } verify success
      (k + s + 2) (belowKeys.take s)
    refine charged.spend ?_ (Nat.le_of_eq counted.symm)
    rw [same]
    exact asked

theorem signatures_of_not_checksSignatures (plain : op.checksSignatures = false) :
    m.signatures env op = [] := by
  cases op <;> first | rfl | cases plain

/-- Without signatures to check, no question is about one. -/
theorem isSignature_of_mayAsk (plain : op.checksSignatures = false) {q : Query}
    (may : m.MayAsk env op q) : q.isSignature = false := by
  rcases q with ⟨sig, key, code, version⟩ | n | n
  · rw [MayAsk, signatures_of_not_checksSignatures plain] at may
    exact absurd may.1 List.not_mem_nil
  · rfl
  · rfl

/-- **One operation** spends its fee at most. -/
theorem perform_covers (h : m.Covers j (if op.checksSignatures then 1 else 0)) :
    (m.perform env op).machine.Covers j 0 := by
  rcases checks : op.checksSignatures with _ | _
  · rw [checks] at h
    have other : ∀ verify, op ≠ .checkMultiSig verify := by
      rintro verify rfl
      cases checks
    refine h.spend ?_ (Nat.le_of_eq ((perform_frame env op m).opCount other).symm)
    exact (perform_frame env op m).asked.checks fun _ => isSignature_of_mayAsk checks
  · rw [checks] at h
    cases op with
    | checkSig verify =>
      have counted := (@checkSig_frame env m verify).opCount nofun
      exact h.spend (checkSig_checks verify) (Nat.le_of_eq counted.symm)
    | checkMultiSig verify => exact checkMultiSig_covers (h.idle rfl (Nat.le_refl _)) verify
    | _ => cases checks

/-! ## Steps and runs -/

/-- The operation of a push is a number or invalid. -/
theorem checksSignatures_of_isPush (push : i.isPush = true) :
    (Operation.ofOpcode i.opcode).checksSignatures = false := by
  rcases ofOpcode_of_isPush push with ⟨n, number⟩ | invalid
  · rw [number]
    rfl
  · rw [invalid]
    rfl

/-- **One instruction**: it is counted, which pays the fee of its operation. -/
theorem step_covers (h : m.Covers j 0) : (m.step env i).machine.Covers j 0 := by
  have counted : m.opCount ≤ (m.count i).opCount := by
    rw [count]
    dsimp only
    -- what is refused before it is executed asks nothing
    split <;> omega
  rw [step]
  split
  next => exact h.idle rfl counted
  next =>
  split
  next => exact h.idle rfl counted
  next few =>
  split
  next => exact h.idle rfl counted
  next =>
  rw [checkStackSize_machine, execute]
  split
  next =>
    split
    next => split <;> exact h.idle rfl counted
    next => exact h.idle rfl counted
  next =>
  dsimp only
  split
  next =>
    refine perform_covers ?_
    -- pushes are not counted, and check no signature either
    rcases push : i.isPush with _ | _
    · rw [push, Bool.not_false, Bool.true_and, decide_eq_true_iff, Nat.not_lt] at few
      have one : (m.count i).opCount = m.opCount + 1 := by
        rw [count, push]
        rfl
      have charged : (m.count i).Covers j 1 := h.charge (m.count i) rfl one few
      split
      next => exact charged
      next => exact charged.idle rfl (Nat.le_refl _)
    · rw [checksSignatures_of_isPush push]
      exact h.idle rfl counted
  next => exact h.idle rfl counted

/-- **All instructions**, by induction on them, whether the run goes on to the end or halts. -/
theorem run_covers {is : List Instruction} (h : m.Covers j 0) :
    (run env is m).machine.Covers j 0 := by
  induction is generalizing m with
  | nil => exact h
  | cons i is ih =>
    have first : (m.step env i).machine.Covers j 0 := step_covers h
    rw [run]
    rcases stepped : m.step env i with next | ⟨stop, halted⟩ <;> rw [stepped] at first
    · exact ih first
    · exact first

/-- Instructions that check no signatures cost nothing. -/
theorem run_checks_nothing {is : List Instruction}
    (plain : ∀ i ∈ is, (Operation.ofOpcode i.opcode).checksSignatures = false) :
    m.journal.Checks 0 (run env is m).machine.journal := by
  induction is generalizing m with
  | nil => exact Journal.checks_of_eq rfl
  | cons i is ih =>
    obtain ⟨own, plain⟩ := List.forall_mem_cons.1 plain
    have first : m.journal.Checks 0 (m.step env i).machine.journal :=
      (step_adds env i m).checks fun _ => isSignature_of_mayAsk own
    rw [run]
    rcases stepped : m.step env i with next | ⟨stop, halted⟩ <;> rw [stepped] at first
    · exact first.trans (ih plain)
    · exact first

end Machine

namespace Script

open Machine (Covers)

variable {flags : Flags} {checker : Checker} {version : SigVersion} {script : Bytes}
  {stack : Stack Bytes}
  {journal : Journal}

/-- Some instruction of the script checks signatures. -/
def checksSignatures (script : Bytes) : Bool :=
  (instructions script).any fun i => (Operation.ofOpcode i.opcode).checksSignatures

/-- How many signature checks a script is good for. -/
def budget (script : Bytes) : Nat := if checksSignatures script then Limit.operations else 0

theorem budget_le (script : Bytes) : budget script ≤ Limit.operations := by
  rw [budget]
  split
  next => exact Nat.le_refl _
  next => exact Nat.zero_le _

/-- **An evaluation**: the operations that it counts cover the questions about signatures that it
asks. -/
theorem evaluate_covers :
    (evaluate flags checker version script stack journal).machine.Covers journal 0 := by
  rw [evaluate]
  split
  next => exact Machine.covers_start stack
  next =>
    dsimp only
    rw [Machine.finish_machine]
    exact Machine.run_covers (Machine.covers_start stack)

/-- It keeps to the budget of the script. -/
theorem evaluate_checks :
    journal.Checks (budget script)
      (evaluate flags checker version script stack journal).machine.journal := by
  rcases some : checksSignatures script with _ | _
  · have nothing : budget script = 0 := by
      rw [budget, some]
      rfl
    rw [checksSignatures, List.any_eq_false] at some
    rw [nothing, evaluate]
    split
    next => exact Journal.checks_of_eq rfl
    next =>
      dsimp only
      rw [Machine.finish_machine]
      exact Machine.run_checks_nothing fun i mem => Bool.eq_false_iff.2 (some i mem)
  · rw [budget, some]
    obtain ⟨n, checks, -, few⟩ := @evaluate_covers flags checker version script stack journal
    exact checks.mono few

/-! ## Scripts without signature checks -/

/-- A script of pushes has nothing to check. -/
theorem budget_of_isPushOnly (push : isPushOnly script = true) : budget script = 0 := by
  have none : checksSignatures script = false := by
    rw [checksSignatures, List.any_eq_false]
    intro i mem
    have pushes : i.isPush = true := List.all_eq_true.1 (isPushOnly_iff.1 push).2 i mem
    rw [Machine.checksSignatures_of_isPush pushes]
    exact Bool.false_ne_true
  rw [budget, none]
  rfl

/-- An output that asks for a script by its hash checks no signature itself. -/
theorem budget_of_isPayToScriptHash (shape : isPayToScriptHash script = true) :
    budget script = 0 := by
  obtain ⟨hash, rfl⟩ := isPayToScriptHash_iff.1 shape
  rw [budget, checksSignatures, instructions_payToScriptHash]
  rfl

/-- A witness program only pushes its version and itself. -/
theorem isPushOnly_of_witnessProgram? (program : (witnessProgram? script).isSome = true) :
    isPushOnly script = true := by
  have single : ∀ version : UInt8, (Opcode.smallInt? version).isSome = true →
      isPushOnly [version] = true := by
    decide +kernel
  rcases script with _ | ⟨version, _ | ⟨size, data⟩⟩
  · cases program
  · cases program
  rw [witnessProgram?] at program
  split at program
  next fits =>
    rw [Option.isSome_map] at program
    have stated : UInt8.ofNat data.length = size := by
      rw [← fits.2.2]
      exact UInt8.ofNat_toNat
    have spelled : version :: size :: data = [version] ++ pushData data := by
      rw [pushData_of_length_lt (by omega), stated]
      rfl
    rw [spelled]
    exact isPushOnly_append_pushData (single version program) (by omega)
  next => cases program

end Script

/-! ## Verifications -/

namespace Run

variable {a b : Nat} {j : Journal} {r : Run}

theorem journal_require (holds : Bool) (e : ScriptError) :
    (r.require holds e).journal = r.journal := by
  cases holds <;> rfl

/-- Chaining runs adds up what they ask. -/
theorem andThen_checks {next : Run → Run} (h : j.Checks a r.journal)
    (h' : ∀ s : Run, s.journal.Checks b (next s).journal) :
    j.Checks (a + b) (r.andThen next).journal := by
  rw [andThen]
  split
  next => exact h.mono (Nat.le_add_right a b)
  next => exact h.trans (h' r)

/-- Requiring something costs nothing. -/
theorem require_checks (holds : Bool) (e : ScriptError) :
    r.journal.Checks 0 (r.require holds e).journal :=
  Journal.checks_of_eq (congrArg Journal.calls (journal_require holds e))

end Run

namespace Script

variable {judge : Judge} {version : SigVersion} {script scriptSig scriptPubkey : Bytes}
  {witness : List Bytes} {journal : Journal} {r : Run}

/-- How many signature checks the witness of a script is good for. -/
def witnessBudget (flags : Flags) (script : Bytes) (untouched : Bool) : Nat :=
  if flags.has .witness && (witnessProgram? script).isSome && untouched then Limit.operations else 0

/-- How many signature checks a script behind a hash is good for, together with its witness. -/
def redeemBudget (flags : Flags) (scriptSig scriptPubkey : Bytes) : Nat :=
  if looksBehindHash flags scriptPubkey && isPushOnly scriptSig then Limit.operations else 0

/-- One script of a verification stays within its budget. -/
theorem resume_checks :
    r.journal.Checks (budget script) (resume judge version script r).journal := by
  have checks := @evaluate_checks judge.flags judge.checker version script r.stack r.journal
  rw [resume]
  rcases outcome : evaluate judge.flags judge.checker version script r.stack r.journal
    with m | ⟨stop, m⟩ <;>
    rw [outcome] at checks <;> exact checks

/-- A witness script checks no more than one evaluation may. -/
theorem runWitness_checks :
    journal.Checks Limit.operations (runWitness judge script witness journal).journal := by
  rw [runWitness]
  split
  next => exact Journal.checks_of_eq rfl
  next =>
    exact Run.andThen_checks (resume_checks.mono (budget_le script)) fun _ => Run.require_checks _ _

theorem checkWitnessProgram_checks {version : Nat} {program : Bytes} :
    journal.Checks Limit.operations
      (checkWitnessProgram judge witness version program journal).journal := by
  rw [checkWitnessProgram]
  split
  next => split <;> exact Journal.checks_of_eq rfl
  next =>
  split
  next =>
    split
    next => exact Journal.checks_of_eq rfl
    next =>
      split
      next => exact Journal.checks_of_eq rfl
      next => exact runWitness_checks
  next =>
  split
  next =>
    split
    next => exact Journal.checks_of_eq rfl
    next => exact runWitness_checks
  next => exact Journal.checks_of_eq rfl

theorem checkWitness_checks {untouched : Bool} {malleated : ScriptError} :
    r.journal.Checks (witnessBudget judge.flags script untouched)
      (checkWitness judge script witness untouched malleated r).journal := by
  rw [checkWitness, witnessBudget]
  rcases judge.flags.has .witness with _ | _
  · exact Journal.checks_of_eq rfl
  rcases witnessProgram? script with _ | ⟨version, program⟩
  · exact Journal.checks_of_eq rfl
  cases untouched with
  | false => exact Journal.checks_of_eq rfl
  | true => exact checkWitnessProgram_checks

/-- A script behind a hash may check signatures itself, or leave them to its witness, but not
both. -/
theorem budget_add_witnessBudget_le (flags : Flags) (script : Bytes) (untouched : Bool) :
    budget script + witnessBudget flags script untouched ≤ Limit.operations := by
  rw [witnessBudget]
  split
  next looks =>
    rw [Bool.and_eq_true, Bool.and_eq_true] at looks
    rw [budget_of_isPushOnly (isPushOnly_of_witnessProgram? looks.1.2), Nat.zero_add]
  next => exact budget_le script

/-- A redeem script is run for script signatures of pushes only. -/
theorem checkRedeemScript_checks {pushed : Stack Bytes} :
    r.journal.Checks (if isPushOnly scriptSig then Limit.operations else 0)
      (checkRedeemScript judge scriptSig witness pushed r).journal := by
  unfold checkRedeemScript
  rcases isPushOnly scriptSig with _ | _
  · exact Journal.checks_of_eq rfl
  rcases pushed with _ | ⟨redeem, below⟩
  · exact Journal.checks_of_eq rfl
  have first : r.journal.Checks (budget redeem)
      ((resume judge .legacy redeem { stack := below, journal := r.journal }).andThen fun r =>
        r.require (endsTrue r.stack) .evalFalse).journal :=
    Run.andThen_checks (r := resume judge .legacy redeem { stack := below, journal := r.journal })
      resume_checks fun _ => Run.require_checks _ _
  exact (Run.andThen_checks first fun _ => checkWitness_checks).mono
    (budget_add_witnessBudget_le judge.flags redeem _)

/-- **A verification** keeps to the budgets of its scripts. -/
theorem verify_checks :
    journal.Checks (budget scriptSig + budget scriptPubkey +
        witnessBudget judge.flags scriptPubkey scriptSig.isEmpty +
        redeemBudget judge.flags scriptSig scriptPubkey)
      (verify judge scriptSig scriptPubkey witness journal).journal := by
  have parts : budget scriptSig + (budget scriptPubkey + (0 +
      (witnessBudget judge.flags scriptPubkey scriptSig.isEmpty +
        (redeemBudget judge.flags scriptSig scriptPubkey + (0 + 0))))) ≤
      budget scriptSig + budget scriptPubkey + witnessBudget judge.flags scriptPubkey
        scriptSig.isEmpty +
        redeemBudget judge.flags scriptSig scriptPubkey := by omega
  rw [verify]
  split
  next => exact Journal.checks_of_eq rfl
  next =>
  refine Journal.Checks.mono ?_ parts
  refine Run.andThen_checks (resume_checks (r := { stack := [], journal })) fun signed => ?_
  refine Run.andThen_checks resume_checks fun _ => ?_
  refine Run.andThen_checks (Run.require_checks _ _) fun _ => ?_
  refine Run.andThen_checks checkWitness_checks fun r => ?_
  refine Run.andThen_checks ?_ fun _ => ?_
  · rw [redeemBudget]
    rcases looksBehindHash judge.flags scriptPubkey with _ | _
    · exact Journal.checks_of_eq rfl
    · exact checkRedeemScript_checks
  · exact Run.andThen_checks (Run.require_checks _ _) fun _ => Run.require_checks _ _

/-- At most two of the evaluations of a verification can check signatures: what calls for a witness,
or for a script behind a hash, checks none itself, and leaves none to the input's script. -/
theorem budgets_le (flags : Flags) (scriptSig scriptPubkey : Bytes) :
    budget scriptSig + budget scriptPubkey + witnessBudget flags scriptPubkey scriptSig.isEmpty +
      redeemBudget flags scriptSig scriptPubkey ≤ 2 * Limit.operations := by
  have signed := budget_le scriptSig
  have spent := budget_le scriptPubkey
  -- what has a witness or a script behind it has no budget of its own
  have witnessed : witnessBudget flags scriptPubkey scriptSig.isEmpty = 0 ∨
      budget scriptSig = 0 ∧ budget scriptPubkey = 0 := by
    rw [witnessBudget]
    split
    next looks =>
      rw [Bool.and_eq_true, Bool.and_eq_true, List.isEmpty_iff] at looks
      rw [looks.2]
      exact .inr ⟨budget_of_isPushOnly isPushOnly_nil,
        budget_of_isPushOnly (isPushOnly_of_witnessProgram? looks.1.2)⟩
    next => exact .inl rfl
  have redeemed : redeemBudget flags scriptSig scriptPubkey = 0 ∨
      budget scriptSig = 0 ∧ budget scriptPubkey = 0 := by
    rw [redeemBudget]
    split
    next looks =>
      rw [looksBehindHash, Bool.and_eq_true, Bool.and_eq_true] at looks
      exact .inr ⟨budget_of_isPushOnly looks.2, budget_of_isPayToScriptHash looks.1.2⟩
    next => exact .inl rfl
  have few : witnessBudget flags scriptPubkey scriptSig.isEmpty ≤ Limit.operations := by
    rw [witnessBudget]
    split <;> simp
  have few' : redeemBudget flags scriptSig scriptPubkey ≤ Limit.operations := by
    rw [redeemBudget]
    split <;> simp
  omega

end Script

namespace Context

/-- **The budget of signature checks.** Take any flags, checker, version, script, stack and journal.
The evaluation of the script adds no more questions about signatures to the journal than the machine
that it leaves has counted operations, and no more than 201, whether it ends well or not. A
verification, of any two scripts and any witness, adds no more than 402. -/
theorem signature_checks_bounded (ctx : Context) (checker : Checker) (version : SigVersion)
    (script scriptSig scriptPubkey : Bytes) (witness : List Bytes) (journal : Journal) :
    (∃ asked,
      (ctx.evalScript checker version script journal).2.calls = journal.calls ++ asked ∧
      asked.countP Query.isSignature ≤
        (Script.evaluate ctx.flags checker version script ctx.stack journal).machine.opCount ∧
      asked.countP Query.isSignature ≤ 201) ∧
    ∃ asked,
      (ctx.verifyScript checker scriptSig scriptPubkey witness journal).2.calls =
        journal.calls ++ asked ∧
      asked.countP Query.isSignature ≤ 402 := by
  constructor
  · obtain ⟨n, ⟨asked, calls, few⟩, counted, most⟩ :=
      @Script.evaluate_covers ctx.flags checker version script ctx.stack journal
    refine ⟨asked, ?_, few.trans counted, few.trans most⟩
    rw [← calls, evalScript]
    rcases Script.evaluate ctx.flags checker version script ctx.stack journal
      with m | ⟨stop, m⟩ <;> rfl
  · exact Script.verify_checks.mono (Script.budgets_le ctx.flags scriptSig scriptPubkey)

/-- A script that checks the signature `1` by the key `1` over and over again reaches the bound. -/
example :
    let checks : Bytes := (List.replicate 201 [0x51, 0xac]).flatten
    let ctx : Context := { flags := ⟨0⟩, stack := [[1]] }
    let one : Checker := .listed [([1], [1])] false false none none
    (ctx.evalScript one .legacy checks).2.calls.length = 201 := by
  decide +kernel

end Context

end BlockRules
