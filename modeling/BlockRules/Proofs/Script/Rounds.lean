import Mathlib
import BlockRules.Proofs.Script.Soundness
import BlockRules.Script.Context

/-!
# The rounds of a verification

A verification evaluates up to five scripts: the input's own one, the one of the output,
the one behind its hash, and a witness script for each of the latter two. `Script.rounds`
lists the evaluations it comes to, each with the stack and the journal it starts from; a
round that is not reached is not in the list.

* a run *comprises* a list of rounds (`Run.Comprises`) if it comes from evaluating them one after
  another, on one journal, with nothing in between but checks that name the rule they find broken.
  Chaining runs concatenates their rounds (`Run.Comprises.andThen`), so each part of a verification
  needs one lemma, and `Script.verify_comprises` puts them together. What is true of every
  evaluation then carries over to verifications by induction on what they comprise;
* a run is *explained by* a list of rounds (`Run.IsExplainedBy`) if its error is
  `unknownError` exactly when one of them rejects a number, and it broke down only if the
  checker did. What a run comprises explains it (`Run.Comprises.isExplainedBy`).

The two entry points of a context then never leave a message, unless the checker does.
-/

namespace BlockRules

/-- An evaluation, with what it starts from. -/
structure Round where
  version : SigVersion
  script : Bytes
  stack : Stack Bytes
  journal : Journal
  deriving DecidableEq, Repr

/-- What the evaluation of a round leaves. -/
def Round.outcome (judge : Judge) (round : Round) : Outcome :=
  Script.evaluate judge.flags judge.checker round.version round.script round.stack round.journal

/-- Some number is rejected in the course of an evaluation. -/
def Round.Rejects (judge : Judge) (round : Round) : Prop :=
  Script.RejectsNumber judge.flags judge.checker round.version round.script round.stack
    round.journal

namespace Run

theorem andThen_assoc {r : Run} {f g : Run → Run} :
    (r.andThen f).andThen g = r.andThen fun r => (f r).andThen g := by
  simp only [andThen]
  rcases stopped : r.stop with _ | stop
  · rfl
  · simp only [stopped]

/-- The rounds that follow a run, if it has not stopped. -/
def roundsAfter (r : Run) (next : Run → List Round) : List Round :=
  match r.stop with
  | some _ => []
  | none => next r

/-- What a run comes to from a journal on: rounds that hand the journal on from one to the next, and
checks in between, which name the rule that they find broken. -/
inductive Comprises (judge : Judge) : Journal → List Round → Run → Prop
  | idle {before : Journal} {r : Run} :
    r.journal = before → r.stop = none → Comprises judge before [] r
  | refused {before : Journal} {r : Run} {e : ScriptError} :
    r.journal = before → r.stop = some (.failed e) → e.NamesRule → Comprises judge before [] r
  | round {before : Journal} {round : Round} {r : Run} :
    round.journal = before → r.stop = (ofOutcome (round.outcome judge)).stop →
    r.journal = (ofOutcome (round.outcome judge)).journal → Comprises judge before [round] r
  | chain {before : Journal} {rounds nextRounds : List Round} {r next : Run} :
    Comprises judge before rounds r → r.stop = none →
    Comprises judge r.journal nextRounds next →
    Comprises judge before (rounds ++ nextRounds) next

variable {judge : Judge} {rounds : List Round} {before : Journal} {r : Run}

namespace Comprises

/-- The stack of a run does not matter. -/
theorem of_eq {r' : Run} (h : Comprises judge before rounds r) (stop : r'.stop = r.stop)
    (journal : r'.journal = r.journal) : Comprises judge before rounds r' := by
  induction h with
  | idle same running => exact .idle (journal.trans same) (stop.trans running)
  | refused same stopped named => exact .refused (journal.trans same) (stop.trans stopped) named
  | round same stopped left => exact .round same (stop.trans stopped) (journal.trans left)
  | chain first running _ _ ih => exact .chain first running (ih stop journal)

theorem fail {e : ScriptError} (same : r.journal = before) (named : e.NamesRule) :
    Comprises judge before [] (r.fail e) :=
  .refused same rfl named

/-- A requirement adds no round. -/
theorem require {holds : Bool} {e : ScriptError} (same : r.journal = before)
    (running : r.stop = none)
    (named : e.NamesRule) : Comprises judge before [] (r.require holds e) := by
  rw [Run.require]
  split
  next => exact .idle same running
  next => exact .fail same named

/-- Chaining runs concatenates the rounds. -/
theorem andThen {next : Run → Run} {nextRounds : Run → List Round}
    (h : Comprises judge before rounds r)
    (h' : r.stop = none → Comprises judge r.journal (nextRounds r) (next r)) :
    Comprises judge before (rounds ++ r.roundsAfter nextRounds) (r.andThen next) := by
  rcases stopped : r.stop with _ | stop <;> simp only [Run.andThen, roundsAfter, stopped]
  · exact .chain h stopped (h' stopped)
  -- a run that has stopped is all there is
  · rw [List.append_nil]
    exact h

/-- A run that goes on without a round of its own adds none. -/
theorem andThen_nil {next : Run → Run} (h : Comprises judge before rounds r)
    (h' : r.stop = none → Comprises judge r.journal [] (next r)) :
    Comprises judge before rounds (r.andThen next) := by
  have whole : Comprises judge before (rounds ++ r.roundsAfter fun _ => []) (r.andThen next) :=
    h.andThen h'
  have none : r.roundsAfter (fun _ => []) = [] := by
    rcases r.stop.eq_none_or_eq_some with stopped | ⟨stop, stopped⟩ <;>
      simp only [roundsAfter, stopped]
  rw [none, List.append_nil] at whole
  exact whole

/-- Requiring something before going on adds no round either. -/
theorem require_andThen {holds : Bool} {e : ScriptError} {next : Run → Run}
    {nextRounds : Run → List Round} (running : r.stop = none) (named : e.NamesRule)
    (h' : (r.require holds e).stop = none → Comprises judge (r.require holds e).journal
      (nextRounds (r.require holds e)) (next (r.require holds e))) :
    Comprises judge r.journal ((r.require holds e).roundsAfter nextRounds)
      ((r.require holds e).andThen next) :=
  (require rfl running named).andThen h'

end Comprises

/-- What stops a run is accounted for by some rounds. -/
def IsExplainedBy (judge : Judge) (rounds : List Round) (r : Run) : Prop :=
  match r.stop with
  | none => ¬∃ round ∈ rounds, round.Rejects judge
  | some stop => stop.IsExplained judge.checker (∃ round ∈ rounds, round.Rejects judge)

/-- One evaluation explains itself. -/
theorem isExplainedBy_singleton {round : Round}
    (stop : r.stop = (ofOutcome (round.outcome judge)).stop) : r.IsExplainedBy judge [round] := by
  have sound :=
    @Script.evaluate_sound judge.flags judge.checker round.version round.script round.stack
    round.journal
  simp only [IsExplainedBy, stop, List.mem_singleton, exists_eq_left, Round.Rejects, Round.outcome]
  rcases outcome : Script.evaluate judge.flags judge.checker round.version round.script round.stack
    round.journal with m | ⟨stop, m⟩
  · rw [outcome] at sound
    exact sound.2
  · rw [outcome] at sound
    exact sound

/-- Rounds that did not stop a run leave it to the later ones to explain what did. -/
theorem IsExplainedBy.append {next : Run} {nextRounds : List Round}
    (h : r.IsExplainedBy judge rounds)
    (running : r.stop = none) (h' : next.IsExplainedBy judge nextRounds) :
    next.IsExplainedBy judge (rounds ++ nextRounds) := by
  simp only [IsExplainedBy, running] at h
  have same : (∃ round ∈ rounds ++ nextRounds, round.Rejects judge) ↔
      ∃ round ∈ nextRounds, round.Rejects judge := by
    simp only [List.mem_append, or_and_right, exists_or]
    exact or_iff_right h
  simp only [IsExplainedBy, same]
  exact h'

/-- A run that has not stopped comprises rounds that ended well. -/
theorem Comprises.ended (h : Comprises judge before rounds r) (running : r.stop = none) :
    ∀ round ∈ rounds, ∃ m, round.outcome judge = .running m := by
  induction h with
  | idle => simp
  | refused => simp
  | @round _ round _ _ stop _ =>
    rw [List.forall_mem_singleton]
    rcases outcome : round.outcome judge with m | ⟨stopped, m⟩
    · exact ⟨m, rfl⟩
    · rw [stop, outcome] at running
      cases running
  | chain _ first _ ih ih' => exact List.forall_mem_append.2 ⟨ih first, ih' running⟩

/-- **What a run comes to explains it.** -/
theorem Comprises.isExplainedBy (h : Comprises judge before rounds r) :
    r.IsExplainedBy judge rounds := by
  induction h with
  | idle _ running => simp [IsExplainedBy, running]
  | refused _ stopped named =>
    simp only [IsExplainedBy, stopped]
    exact ⟨named.1, iff_of_false named.2 (by simp)⟩
  | round _ stopped _ => exact isExplainedBy_singleton stopped
  | chain _ running _ ih ih' => exact ih.append running ih'

end Run

namespace Script

/-- The round of a witness script, unless an item of the witness is too long. -/
def witnessRounds (script : Bytes) (witness : List Bytes) (journal : Journal) : List Round :=
  if witness.any fun item => Limit.pushSize < item.length then []
  else [⟨.witnessV0, script, witness.reverse, journal⟩]

/-- The round of a witness program: the script that the witness ends with, or the one that
stands behind a key hash. -/
def programRounds (witness : List Bytes) (version : Nat) (program : Bytes) (journal : Journal) :
    List Round :=
  if version ≠ 0 then []
  else if program.length = 32 then
    match witness.getLast? with
    | none => []
    | some script =>
      if sha256 script ≠ program then [] else witnessRounds script witness.dropLast journal
  else if program.length = 20 then
    if witness.length ≠ 2 then []
    else witnessRounds (payToKeyHash (Wide.ofBytesLE program)) witness journal
  else []

/-- The round of a witness, if a script calls for one. -/
def checkWitnessRounds (judge : Judge) (script : Bytes) (witness : List Bytes) (untouched : Bool)
    (r : Run) : List Round :=
  if judge.flags.has .witness then
    match witnessProgram? script with
    | none => []
    | some (version, program) =>
      if !untouched then [] else programRounds witness version program r.journal
  else []

/-- The rounds of a script behind a hash. -/
def redeemRounds (judge : Judge) (scriptSig : Bytes) (witness : List Bytes) (pushed : Stack Bytes)
    (r : Run) : List Round :=
  if !isPushOnly scriptSig then []
  else
    match pushed with
    | [] => []
    | redeem :: below =>
      let first : Round := ⟨.legacy, redeem, below, r.journal⟩
      let inner :=
        (resume judge .legacy redeem { stack := below, journal := r.journal }).andThen fun r =>
          r.require (endsTrue r.stack) .evalFalse
      [first] ++ inner.roundsAfter
        (checkWitnessRounds judge redeem witness (scriptSig == pushData redeem))

/-- The evaluations that a verification comes to, in order. -/
def rounds (judge : Judge) (scriptSig scriptPubkey : Bytes) (witness : List Bytes)
    (journal : Journal) : List Round :=
  let flags := judge.flags
  let start : Run := { stack := [], journal }
  if flags.has .sigPushOnly && !isPushOnly scriptSig then []
  else
    [⟨.legacy, scriptSig, [], journal⟩] ++
    (resume judge .legacy scriptSig start).roundsAfter fun signed =>
    [⟨.legacy, scriptPubkey, signed.stack, signed.journal⟩] ++
    (resume judge .legacy scriptPubkey signed).roundsAfter fun r =>
    (r.require (endsTrue r.stack) .evalFalse).roundsAfter fun r =>
    checkWitnessRounds judge scriptPubkey witness scriptSig.isEmpty r ++
    (checkWitness judge scriptPubkey witness scriptSig.isEmpty .witnessMalleated r).roundsAfter
      fun r =>
    if looksBehindHash flags scriptPubkey then redeemRounds judge scriptSig witness signed.stack r
    else []

variable {judge : Judge}

/-- One script is one round, that starts with the stack and the journal of the run. -/
theorem resume_comprises {version : SigVersion} {script : Bytes} (r : Run) :
    Run.Comprises judge r.journal [⟨version, script, r.stack, r.journal⟩]
      (resume judge version script r) :=
  .round rfl rfl rfl

theorem runWitness_comprises {script : Bytes} {witness : List Bytes} {journal : Journal} :
    Run.Comprises judge journal (witnessRounds script witness journal)
      (runWitness judge script witness journal) := by
  simp only [runWitness, witnessRounds]
  split
  next => exact .fail rfl (by decide)
  next =>
    exact (resume_comprises { stack := witness.reverse, journal }).andThen_nil fun running =>
      .require rfl running (by decide)

/-- The rounds of a witness program: one, or none where it is not run. -/
theorem checkWitnessProgram_comprises {witness : List Bytes} {version : Nat} {program : Bytes}
    {journal : Journal} :
    Run.Comprises judge journal (programRounds witness version program journal)
      (checkWitnessProgram judge witness version program journal) := by
  simp only [checkWitnessProgram, programRounds]
  split
  next =>
    split
    next => exact .fail rfl (by decide)
    next => exact .idle rfl rfl
  next =>
  split
  next =>
    rcases witness.getLast? with _ | script
    · exact .fail rfl (by decide)
    · dsimp only
      split
      next => exact .fail rfl (by decide)
      next => exact runWitness_comprises
  next =>
  split
  next =>
    split
    next => exact .fail rfl (by decide)
    next => exact runWitness_comprises
  next => exact .fail rfl (by decide)

/-- The rounds of a witness, with the check that the script signature was left untouched. -/
theorem checkWitness_comprises {script : Bytes} {witness : List Bytes} {untouched : Bool}
    {malleated : ScriptError} {r : Run} (running : r.stop = none) (named : malleated.NamesRule) :
    Run.Comprises judge r.journal (checkWitnessRounds judge script witness untouched r)
      (checkWitness judge script witness untouched malleated r) := by
  simp only [checkWitness, checkWitnessRounds]
  split
  next =>
    rcases witnessProgram? script with _ | ⟨version, program⟩ <;> dsimp only
    · exact .idle rfl running
    · split
      next => exact .fail rfl named
      next => exact checkWitnessProgram_comprises.of_eq rfl rfl
  next => exact .idle rfl running

/-- The rounds of a redeem script: its own, and those of the witness program it may be. -/
theorem checkRedeemScript_comprises {scriptSig : Bytes} {witness : List Bytes}
    {pushed : Stack Bytes} {r : Run} :
    Run.Comprises judge r.journal (redeemRounds judge scriptSig witness pushed r)
      (checkRedeemScript judge scriptSig witness pushed r) := by
  simp only [checkRedeemScript, redeemRounds]
  split
  next => exact .fail rfl (by decide)
  next =>
  rcases pushed with _ | ⟨redeem, below⟩ <;> dsimp only
  · exact .fail rfl (by decide)
  · have first : Run.Comprises judge r.journal [⟨.legacy, redeem, below, r.journal⟩]
        ((resume judge .legacy redeem { stack := below, journal := r.journal }).andThen
          fun r => r.require (endsTrue r.stack) .evalFalse) :=
      (resume_comprises { stack := below, journal := r.journal }).andThen_nil fun running =>
        .require rfl running (by decide)
    exact (first.andThen fun running => checkWitness_comprises running (by decide)).of_eq rfl rfl

/-- **What a verification comes to** are its rounds. -/
theorem verify_comprises {scriptSig scriptPubkey : Bytes} {witness : List Bytes}
    {journal : Journal} :
    Run.Comprises judge journal (rounds judge scriptSig scriptPubkey witness journal)
      (verify judge scriptSig scriptPubkey witness journal) := by
  simp only [verify, rounds]
  split
  next => exact .fail rfl (by decide)
  next =>
  refine (resume_comprises { stack := [], journal }).andThen fun _ => ?_
  refine (resume_comprises _).andThen fun running => ?_
  refine .require_andThen running (by decide) fun running => ?_
  refine (checkWitness_comprises running (by decide)).andThen fun running => ?_
  refine Run.Comprises.andThen_nil ?_ fun running => ?_
  · split
    next => exact checkRedeemScript_comprises
    next => exact .idle rfl running
  · exact (Run.Comprises.require rfl running (by decide)).andThen_nil fun running =>
      .require rfl running (by decide)

theorem resume_isExplainedBy {version : SigVersion} {script : Bytes} {r : Run} :
    (resume judge version script r).IsExplainedBy judge
      [⟨version, script, r.stack, r.journal⟩] :=
  (resume_comprises r).isExplainedBy

/-- A verification's error is `unknownError` exactly if one of its rounds rejects a number, and it
breaks down only if the checker does. -/
theorem verify_isExplainedBy {scriptSig scriptPubkey : Bytes} {witness : List Bytes}
    {journal : Journal} :
    (verify judge scriptSig scriptPubkey witness journal).IsExplainedBy judge
      (rounds judge scriptSig scriptPubkey witness journal) :=
  verify_comprises.isExplainedBy

end Script

namespace Context

variable {judge : Judge} {rounds : List Round} {r : Run}

/-- A run that is explained ends well exactly if nothing stops it. -/
theorem accepts_record_iff (ctx : Context) (h : r.IsExplainedBy judge rounds) :
    (ctx.record r).accepts = true ↔ r.stop = none := by
  rw [Run.IsExplainedBy] at h
  rw [accepts, beq_iff_eq, record]
  rcases stopped : r.stop with _ | e | message <;> simp only [stopped] at h ⊢
  · exact iff_of_false h.1 nofun
  · exact iff_of_false nofun nofun

/-- With a calm checker, a run that is explained leaves no message. -/
theorem record_of_calm (ctx : Context) (calm : judge.checker.IsCalm)
    (h : r.IsExplainedBy judge rounds) :
    (ctx.record r).unexpected = none ∧
      ((ctx.record r).error = .unknownError ↔ ∃ round ∈ rounds, round.Rejects judge) := by
  rw [Run.IsExplainedBy] at h
  rw [record]
  rcases stopped : r.stop with _ | e | message <;> simp only [stopped] at h ⊢
  · exact ⟨trivial, iff_of_false nofun h⟩
  · exact ⟨trivial, h.2⟩
  · exact absurd h calm.not_crashesWith

end Context

end BlockRules
