import Mathlib
import BlockRules.Proofs.Script.Addresses
import BlockRules.Proofs.Script.Matching

/-!
# How a multi-signature check is settled

When a multi-signature check knows its result, its items are still on the stack. They are taken off
one by one, and there two flags come in: one asks that the signatures of a failed check are empty,
the other that the extra item below them is. Which items are signatures is known by a countdown only
(`Procedure.clear`). This module says what comes of it, for all numbers of keys and signatures.

* `CountsMultiSig` — the counts are in order, and the items they announce are there. The extra
  item may be missing, which is noticed before any signature is looked at
  (`checkMultiSig_of_missing`);
* **the signatures** — a failed check is refused for one that is not empty
  (`settleMultiSig_of_nonempty`), and for nothing else on the stack;
* **the extra item** — otherwise it decides whether the check concludes
  (`settleMultiSig_of_quiet`), on the stack without all that the check was about
  (`CountsMultiSig.drop_stack`);
* `checkMultiSig_settles` — the whole operation, with the countdown and without.
-/

namespace BlockRules.Machine

variable {env : Env} {m : Machine} {sigs keys below rest : List Bytes} {extra : Bytes} {taken : Nat}
  {verify success : Bool}

/-! ## What the stack holds -/

/-- The stack holds, from the top, a number of keys, the keys, a number of signatures, the
signatures, and whatever is below. All of it is within the limits. -/
structure CountsMultiSig (env : Env) (m : Machine) (sigs keys below : List Bytes) : Prop where
  items : ∃ keyCount sigCount, m.stack = keyCount :: (keys ++ sigCount :: (sigs ++ below)) ∧
    env.flags.readNumber Limit.number keyCount = .ok keys.length ∧
    env.flags.readNumber Limit.number sigCount = .ok sigs.length
  fewKeys : keys.length ≤ Limit.keys
  fewSigs : sigs.length ≤ keys.length
  fewOperations : m.opCount + keys.length ≤ Limit.operations
  inside : m.codeStart ≤ env.script.length

namespace CountsMultiSig

theorem holds (counts : m.CountsMultiSig env sigs keys below) (there : below ≠ []) :
    m.HoldsMultiSig env sigs keys below where
  items := counts.items
  extra := there
  fewKeys := counts.fewKeys
  fewSigs := counts.fewSigs
  fewOperations := counts.fewOperations
  inside := counts.inside

/-- The counts, the keys and the signatures are above the rest. -/
theorem drop_stack (counts : m.CountsMultiSig env sigs keys below) :
    m.stack.drop (keys.length + sigs.length + 2) = below := by
  obtain ⟨keyCount, sigCount, items, -⟩ := counts.items
  have parts : m.stack = (keyCount :: (keys ++ sigCount :: sigs)) ++ below := by simp [items]
  have length :
      keys.length + sigs.length + 2 = (keyCount :: (keys ++ sigCount :: sigs)).length := by
    simp only [List.length_cons, List.length_append]
    omega
  rw [parts, length, List.drop_left]

end CountsMultiSig

/-- Without an extra item the check fails before it looks at a signature. -/
theorem checkMultiSig_of_missing (counts : m.CountsMultiSig env sigs keys []) (verify : Bool) :
    m.checkMultiSig env verify =
      ({ m with opCount := m.opCount + keys.length } : Machine).fail .invalidStackOperation := by
  obtain ⟨keyCount, sigCount, items, readKeys, readSigs⟩ := counts.items
  have countKeys := readCount_of_readNumber le_rfl counts.fewKeys readKeys
  have countSigs := readCount_of_readNumber counts.fewKeys counts.fewSigs readSigs
  have within : ¬Limit.operations < m.opCount + keys.length := Nat.not_lt.2 counts.fewOperations
  have missing : (sigs ++ []).length < sigs.length + 1 := by
    rw [List.append_nil]
    exact Nat.lt_succ_self _
  rw [checkMultiSig]
  simp only [items, countKeys, if_neg within, List.drop_left, countSigs, if_pos missing]

/-! ## What becomes of it -/

/-- A failed check is refused for a signature that is not empty, if that is asked for. -/
theorem settleMultiSig_of_nonempty (asked : env.flags.has .nullFail = true)
    (nonempty : ∃ sig ∈ sigs, sig ≠ []) :
    ∃ left, settleMultiSig env verify taken sigs false m = .halted (.failed .nullFail) left := by
  have some : sigs.any (!·.isEmpty) = true := by
    simpa [List.any_eq_true] using nonempty
  rw [settleMultiSig, asked, some]
  exact ⟨_, rfl⟩

/-- In all other cases the extra item decides. -/
theorem settleMultiSig_of_quiet
    (quiet : ¬(success = false ∧ env.flags.has .nullFail = true ∧
      ∃ sig ∈ sigs, sig ≠ []))
    (below : m.stack.drop taken = extra :: rest) :
    settleMultiSig env verify taken sigs success m =
      if env.flags.has .nullDummy = true ∧ extra ≠ [] then
        ({ m with stack := extra :: rest } : Machine).fail .sigNullDummy
      else ({ m with stack := rest } : Machine).conclude
        (whenVerified verify .checkMultiSigVerify) success := by
  have passes : ¬(!success && env.flags.has .nullFail && sigs.any (!·.isEmpty)) = true := by
    simpa [List.any_eq_true] using quiet
  have forbidden : (env.flags.has .nullDummy && !extra.isEmpty) = true ↔
      env.flags.has .nullDummy = true ∧ extra ≠ [] := by
    simp
  rw [settleMultiSig, if_neg passes]
  simp only [below, forbidden]

/-- A conclusion fails only with the error it was given. -/
theorem conclude_ne {e e' : ScriptError} (other : e ≠ e') (left : Machine) :
    m.conclude (whenVerified verify e) success ≠ .halted (.failed e') left := by
  cases verify
  · exact nofun
  · cases success
    · intro same
      exact other (Stop.failed.inj (Outcome.halted.inj same).1)
    · exact nofun

/-- **A multi-signature check takes off what it was about.** Take any stack with counts that are in
order, within the limits.

* Taking the items off one by one, with a countdown to the signatures, is what the machine does.
* Without an extra item the stack is refused.
* With one, and behind a walk over the signatures and keys that ended with a result: a failed check
  is refused for its signatures, where that is asked for, exactly if one of them is not empty. If it
  is not, it is refused for the extra item exactly if that must be empty and is not, and otherwise
  it concludes with its result, on the stack without the counts, the keys, the signatures and the
  extra item. -/
theorem checkMultiSig_settles (counts : m.CountsMultiSig env sigs keys below) (verify : Bool) :
    (Procedure.checkMultiSig env verify).outcome m = m.checkMultiSig env verify ∧
    (below = [] → m.checkMultiSig env verify =
      ({ m with opCount := m.opCount + keys.length } : Machine).fail .invalidStackOperation) ∧
    ∀ extra rest, below = extra :: rest →
      ∃ code, m.signedCode env sigs = .ok code ∧
        ∀ success journal, matchKeys env code sigs keys m.journal = (.ok success, journal) →
          (success = false → env.flags.has .nullFail = true →
            ((∃ left, m.checkMultiSig env verify = .halted (.failed .nullFail) left) ↔
              ∃ sig ∈ sigs, sig ≠ [])) ∧
          (¬(success = false ∧ env.flags.has .nullFail = true ∧
            ∃ sig ∈ sigs, sig ≠ []) →
            ((∃ left, m.checkMultiSig env verify = .halted (.failed .sigNullDummy) left) ↔
              env.flags.has .nullDummy = true ∧ extra ≠ []) ∧
            (¬(env.flags.has .nullDummy = true ∧ extra ≠ []) →
              m.checkMultiSig env verify =
                ({ m with
                    stack := m.stack.drop (keys.length + sigs.length + 3)
                    opCount := m.opCount + keys.length
                    journal } : Machine).conclude
                  (whenVerified verify .checkMultiSigVerify) success)) := by
  refine ⟨?_, ?_, ?_⟩
  · have few := counts.fewOperations
    exact Procedure.checkMultiSig_eq verify (by omega)
  · rintro rfl
    exact checkMultiSig_of_missing counts verify
  · rintro extra rest rfl
    obtain ⟨code, signed⟩ := signedCode_of_inside counts.inside sigs
    refine ⟨code, signed, fun success journal ended => ?_⟩
    have whole := checkMultiSig_of_holds verify (counts.holds (List.cons_ne_nil _ _)) signed
    rw [ended] at whole
    have under : m.stack.drop (keys.length + sigs.length + 3) = rest := by
      rw [← List.tail_drop, counts.drop_stack, List.tail_cons]
    -- a check that is not refused for its signatures comes down to the extra item
    have settled := fun quiet => whole.trans (settleMultiSig_of_quiet quiet counts.drop_stack)
    rw [under]
    refine ⟨fun failed asked => ⟨fun ⟨left, refused⟩ => ?_, fun nonempty => ?_⟩,
      fun quiet => ⟨?_, ?_⟩⟩
    · by_contra empty
      rw [settled fun loud => empty loud.2.2] at refused
      split at refused
      next => cases refused
      next => exact conclude_ne (by decide) left refused
    · rw [whole, failed]
      exact settleMultiSig_of_nonempty asked nonempty
    · rw [settled quiet]
      split
      next forbidden => exact iff_of_true ⟨_, rfl⟩ forbidden
      next allowed =>
        exact iff_of_false (fun ⟨left, refused⟩ => conclude_ne (by decide) left refused) allowed
    · intro allowed
      rw [settled quiet, if_neg allowed]

/-- Failed checks have empty signatures, and extra items are empty. No signature is good. -/
def unforgiving : Env where
  flags := .ofList [.nullFail, .nullDummy]
  version := .legacy
  script := []
  checker := .base

/-- A check of one signature against one key. -/
def holdingOne (sig : Bytes) (below : List Bytes) : Machine where
  stack := [1] :: ([[2]] ++ [1] :: ([sig] ++ below))

/-- A signature that is not good and not empty is refused, whatever the extra item is. With an empty
signature the extra item is looked at, and what is below it stays. -/
theorem one_signature_settled :
    (∃ left, (holdingOne [9] [[5], [7]]).checkMultiSig unforgiving false =
      .halted (.failed .nullFail) left) ∧
    (∃ left, (holdingOne [] [[5], [7]]).checkMultiSig unforgiving false =
      .halted (.failed .sigNullDummy) left) ∧
    (∃ after, (holdingOne [] [[], [7]]).checkMultiSig unforgiving false = .running after ∧
      after.stack = [[], [7]]) := by
  have counts (sig : Bytes) (below : List Bytes) :
      (holdingOne sig below).CountsMultiSig unforgiving [sig] [[2]] below :=
    { items := ⟨[1], [1], rfl, rfl, rfl⟩
      fewKeys := by decide
      fewSigs := le_rfl
      fewOperations := show 0 + 1 ≤ 201 by decide
      inside := le_rfl }
  have failing (code sig : Bytes) : matchKeys unforgiving code [sig] [[2]] {} =
      (.ok false, { calls := [.signature sig [2] code .legacy] }) := by
    have free : unforgiving.flags.AsksNoForm := by decide
    simp only [matchKeys, free.checkForms]
    rfl
  refine ⟨?_, ?_, ?_⟩
  · obtain ⟨code, -, settles⟩ :=
      (checkMultiSig_settles (counts [9] [[5], [7]]) false).2.2 [5] [[7]] rfl
    exact ((settles _ _ (failing code [9])).1 rfl (by decide)).2 ⟨[9], by simp, by simp⟩
  · obtain ⟨code, -, settles⟩ :=
      (checkMultiSig_settles (counts [] [[5], [7]]) false).2.2 [5] [[7]] rfl
    exact ((settles _ _ (failing code [])).2 (by simp)).1.2 (by decide)
  · obtain ⟨code, -, settles⟩ :=
      (checkMultiSig_settles (counts [] [[], [7]]) false).2.2 [] [[7]] rfl
    exact ⟨_, ((settles _ _ (failing code [])).2 (by simp)).2 (by decide), rfl⟩

end BlockRules.Machine
