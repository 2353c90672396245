import Mathlib
import BlockRules.Script.Context

/-!
# Checkers that scripts cannot tell apart

All that a script learns about the world outside comes from its checker: the replies to its
questions, and whether the spending transaction is a coinstake. Checkers that agree in this are
*alike* (`Checker.Alike`), and every evaluation and every verification goes the same way with
either, to the same stack, for the same reason, with the same journal.

`Env.asking` is the same run with another checker. The operations that ask something are gone
through one by one, the others do not see which checker there is (`Machine.perform_congr`). The
rest follows instruction by instruction and round by round.
-/

namespace BlockRules

/-- Checkers that give the same replies, and the same answer about the spending transaction. -/
structure Checker.Alike (c c' : Checker) : Prop where
  respond : c.respond = c'.respond
  coinstake : c.transaction.any Transaction.isCoinstake = c'.transaction.any Transaction.isCoinstake

/-- The same run with another checker. -/
def Env.asking (env : Env) (checker : Checker) : Env := { env with checker }

variable {c c' : Checker}

/-- Checkers that answer alike leave the same journal. -/
theorem Checker.Alike.ask (alike : c.Alike c') (j : Journal) (q : Query) :
    j.ask c q = j.ask c' q := by
  rw [Journal.ask, Journal.ask, alike.respond]

namespace Machine

variable {env : Env} {m : Machine}

/-! ## Operations that ask -/

theorem askTime_congr (alike : c.Alike c') (q : Query) :
    m.askTime (env.asking c) q = m.askTime (env.asking c') q := by
  simp only [askTime, Env.asking, alike.ask]

theorem checkLockTime_congr (alike : c.Alike c') :
    m.checkLockTime (env.asking c) = m.checkLockTime (env.asking c') := by
  simp only [checkLockTime, askTime_congr alike]
  rfl

theorem checkSequence_congr (alike : c.Alike c') :
    m.checkSequence (env.asking c) = m.checkSequence (env.asking c') := by
  simp only [checkSequence, askTime_congr alike]
  rfl

/-- Of the spending transaction nothing is looked at but whether it is a coinstake. -/
theorem checkColdStake_eq (env : Env) :
    m.checkColdStake env =
      if env.checker.transaction.any Transaction.isCoinstake then
        .running { m with journal := { m.journal with coldStake := true } }
      else m.fail .checkColdStakeVerify := by
  rw [checkColdStake]
  rcases env.checker.transaction with _ | tx <;> rfl

theorem checkColdStake_congr (alike : c.Alike c') :
    m.checkColdStake (env.asking c) = m.checkColdStake (env.asking c') := by
  rw [checkColdStake_eq, checkColdStake_eq, Env.asking, Env.asking, alike.coinstake]

theorem checkSig_congr (alike : c.Alike c') (verify : Bool) :
    m.checkSig (env.asking c) verify = m.checkSig (env.asking c') verify := by
  simp only [checkSig, Env.asking, alike.ask]
  rfl

theorem matchKeys_congr (alike : c.Alike c') (code : Bytes) (sigs keys : List Bytes) (j : Journal) :
    matchKeys (env.asking c) code sigs keys j = matchKeys (env.asking c') code sigs keys j := by
  induction keys generalizing sigs j with
  | nil => cases sigs <;> rfl
  | cons key keys ih =>
    cases sigs with
    | nil => rfl
    | cons sig sigs =>
      have first : j.ask (env.asking c).checker = j.ask (env.asking c').checker :=
        funext (alike.ask j)
      simp only [matchKeys, first, ih]
      rfl

theorem checkMultiSig_congr (alike : c.Alike c') (verify : Bool) :
    m.checkMultiSig (env.asking c) verify = m.checkMultiSig (env.asking c') verify := by
  simp only [checkMultiSig, matchKeys_congr alike]
  rfl

/-! ## Runs -/

/-- Every operation asks through the checker only. -/
theorem perform_congr (alike : c.Alike c') (op : Operation) :
    m.perform (env.asking c) op = m.perform (env.asking c') op := by
  cases op
  case checkLockTime =>
    simp only [perform, checkLockTime_congr alike]
    rfl
  case checkSequence =>
    simp only [perform, checkSequence_congr alike]
    rfl
  case checkColdStake =>
    simp only [perform, checkColdStake_congr alike]
    rfl
  case checkSig verify => exact checkSig_congr alike verify
  case checkMultiSig verify => exact checkMultiSig_congr alike verify
  all_goals rfl

/-- **One instruction.** -/
theorem step_congr (alike : c.Alike c') (i : Instruction) :
    m.step (env.asking c) i = m.step (env.asking c') i := by
  simp only [step, execute, perform_congr alike]
  rfl

/-- **One script**, by induction on its instructions: both runs are in the same state before
each. -/
theorem run_congr (alike : c.Alike c') (is : List Instruction) :
    run (env.asking c) is m = run (env.asking c') is m := by
  induction is generalizing m with
  | nil => rfl
  | cons i is ih => simp only [run, step_congr alike, ih]

end Machine

/-! ## Verifications -/

namespace Script

variable {flags : Flags}

/-- Evaluation does not tell apart checkers that answer alike. -/
theorem evaluate_congr (alike : c.Alike c') (version : SigVersion) (script : Bytes)
    (stack : Stack Bytes) (journal : Journal) :
    evaluate flags c version script stack journal =
      evaluate flags c' version script stack journal := by
  have runs := fun (m : Machine) => @Machine.run_congr c c' ⟨flags, c, version, script⟩ m alike
  simp only [Env.asking] at runs
  simp only [evaluate, runs]

theorem resume_congr (alike : c.Alike c') (version : SigVersion) (script : Bytes) :
    resume ⟨flags, c⟩ version script = resume ⟨flags, c'⟩ version script := by
  funext r
  simp only [resume, evaluate_congr alike]

theorem checkWitnessProgram_congr (alike : c.Alike c') (witness : List Bytes) (version : Nat)
    (program : Bytes) (journal : Journal) :
    checkWitnessProgram ⟨flags, c⟩ witness version program journal =
      checkWitnessProgram ⟨flags, c'⟩ witness version program journal := by
  simp only [checkWitnessProgram, runWitness, resume_congr alike]

theorem checkWitness_congr (alike : c.Alike c') (script : Bytes) (witness : List Bytes)
    (untouched : Bool) (malleated : ScriptError) :
    checkWitness ⟨flags, c⟩ script witness untouched malleated =
      checkWitness ⟨flags, c'⟩ script witness untouched malleated := by
  funext r
  simp only [checkWitness, checkWitnessProgram_congr alike]

/-- **One verification.** -/
theorem verify_congr (alike : c.Alike c') (scriptSig scriptPubkey : Bytes) (witness : List Bytes)
    (journal : Journal) :
    verify ⟨flags, c⟩ scriptSig scriptPubkey witness journal =
      verify ⟨flags, c'⟩ scriptSig scriptPubkey witness journal := by
  simp only [verify, checkRedeemScript, resume_congr alike, checkWitness_congr alike]

end Script

/-- Verifications with checkers that are alike end in the same context and with the same journal. -/
theorem Context.verifyScript_congr (alike : c.Alike c') (ctx : Context)
    (scriptSig scriptPubkey : Bytes)
    (witness : List Bytes) (journal : Journal) :
    ctx.verifyScript c scriptSig scriptPubkey witness journal =
      ctx.verifyScript c' scriptSig scriptPubkey witness journal := by
  simp only [verifyScript, Script.verify_congr alike]

end BlockRules
