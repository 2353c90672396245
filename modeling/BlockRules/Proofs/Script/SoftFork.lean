import Mathlib
import BlockRules.Proofs.Script.Rounds

/-!
# Fewer flags accept more

Every flag was added to forbid something. A verification under some of the flags should
therefore accept whatever it accepts under all of them: this is what lets a rule be
switched on while others do not know of it yet.

Two runs under different flags are kept in lock step. The stricter one leads, and the other
one *follows* (`Outcome.Follows`): wherever the leader runs on, the follower runs on in the
same state. Only the journals differ, since the leader asks more questions, and for a
checker whose answers depend on the question alone they do not matter.

* `Flags.Eases` — what makes following possible operation by operation. Besides being
  fewer, the flags must not discourage an operation that the leader knows as one of the
  later ones;
* `Machine.perform_follows`, `Machine.step_follows`, `Machine.run_follows` — one operation,
  one instruction, one script;
* `Run.Follows` — the same for verifications. Here the stacks may come apart, because the
  leader puts a stack of its own in the place of a witness or a script behind a hash that
  the follower does not look at. They stay together if the follower looks at witnesses,
  which is the only case in which it matters (`Script.verify_follows`).
-/

namespace BlockRules

/-- The flags `F` are some of the flags `G`, and do not discourage an operation that `G`
knows and `F` does not. -/
structure Flags.Eases (F G : Flags) : Prop where
  subset : G.contains F = true
  nops : F.has .discourageUpgradableNops = true →
    F.has .checkLockTimeVerify = G.has .checkLockTimeVerify ∧
      F.has .checkSequenceVerify = G.has .checkSequenceVerify ∧
      F.has .checkColdStakeVerify = G.has .checkColdStakeVerify

namespace Flags.Eases

variable {F G : Flags} {f : Flag} {a b : Bool}

/-- Fewer flags make fewer checks that depend on a flag. -/
theorem has_and (eases : F.Eases G) (asked : (F.has f && b) = true) : (G.has f && b) = true := by
  rw [Bool.and_eq_true] at asked ⊢
  exact asked.imp_left (has_of_contains eases.subset)

theorem and_has_and (eases : F.Eases G) (asked : (a && F.has f && b) = true) :
    (a && G.has f && b) = true := by
  rw [Bool.and_assoc, Bool.and_eq_true] at asked ⊢
  exact asked.imp_right eases.has_and

end Flags.Eases

/-- The same surroundings under other flags. -/
def Env.under (env : Env) (flags : Flags) : Env := { env with flags }

/-- Wherever the outcome `o` runs on, `o'` runs on in the same state but for the journal. -/
def Outcome.Follows (o' o : Outcome) : Prop :=
  ∀ m, o = .running m → ∃ journal, o' = .running { m with journal }

/-- An operand that is read under some flags is read under fewer ones. -/
theorem Flags.readNumber_of_contains {F G : Flags} (subset : G.contains F = true) {limit : Nat}
    (small : limit ≤ 8) {item : Bytes} {n : Int} (h : G.readNumber limit item = .ok n) :
    F.readNumber limit item = .ok n := by
  obtain ⟨fine, value⟩ := (readNumber_eq_ok_iff small).1 h
  refine (readNumber_eq_ok_iff small).2 ⟨fun bad => fine ?_, value⟩
  exact bad.of_flags (has_of_contains subset)

/-- A pure checker gives the same answer at any time. -/
theorem Checker.IsPure.respond_eq {c : Checker} (pure : c.IsPure) (before before' : List Query)
    (q : Query) : c.respond before q = c.respond before' q :=
  (pure before q).trans (pure before' q).symm

namespace Machine

variable {env : Env} {F : Flags} {m n : Machine} {journal : Journal} {o o' : Outcome}

/-! ## Following -/

theorem follows_fail {e : ScriptError} : o'.Follows (m.fail e) := nofun

theorem follows_halt {stop : Stop} : o'.Follows (m.halt stop) := nofun

theorem running_follows : (Outcome.running { m with journal }).Follows (.running m) := by
  rintro _ ⟨⟩
  exact ⟨journal, rfl⟩

/-- A check that the follower makes under narrower conditions. -/
theorem guard_follows {a b : Prop} [Decidable a] [Decidable b] {e e' : ScriptError}
    (narrower : b → a) (h : ¬a → o'.Follows o) :
    (if b then n.fail e' else o').Follows (if a then m.fail e else o) := by
  by_cases stops : a
  · rw [if_pos stops]
    exact follows_fail
  · rw [if_neg stops, if_neg (stops ∘ narrower)]
    exact h stops

/-- Fewer flags reject no more operands. -/
theorem readNumber_follows (eases : F.Eases env.flags) {limit : Nat} (small : limit ≤ 8)
    {item : Bytes} {next next' : Int → Outcome}
    (h : ∀ value, (next' value).Follows (next value)) :
    (match F.readNumber limit item with
      | .error stop => n.halt stop
      | .ok value => next' value).Follows
    (match env.flags.readNumber limit item with
      | .error stop => m.halt stop
      | .ok value => next value) := by
  rcases read : env.flags.readNumber limit item with stop | value
  · exact follows_halt
  · rw [Flags.readNumber_of_contains eases.subset small read]
    exact h value

theorem conclude_follows {ifFalse : Option ScriptError} {holds : Bool} :
    (({ m with journal } : Machine).conclude ifFalse holds).Follows (m.conclude ifFalse holds) := by
  rcases ifFalse with _ | e
  · exact running_follows
  · cases holds with
    | false => exact follows_fail
    | true => exact running_follows

theorem reserved_follows (eases : F.Eases env.flags) :
    (({ m with journal } : Machine).reserved (env.under F)).Follows (m.reserved env) :=
  guard_follows (Flags.has_of_contains eases.subset) fun _ => running_follows

/-- A pure checker answers alike whatever was asked before. -/
theorem askTime_follows (pure : env.checker.IsPure) {q : Query} :
    (({ m with journal } : Machine).askTime (env.under F) q).Follows (m.askTime env q) := by
  have same : (env.under F).checker.respond journal.calls q =
      env.checker.respond m.journal.calls q := pure.respond_eq ..
  simp only [askTime, Journal.ask, same]
  rcases env.checker.respond m.journal.calls q with _ | _ | text
  · rintro _ ⟨⟩
    exact ⟨_, rfl⟩
  · exact follows_fail
  · exact follows_halt

/-! ## Single operations -/

/-- An operation of the later ones under a flag of its own: where the follower does not know
it, it must not discourage it. -/
theorem later_follows {f : Flag} {later later' : Outcome} (eases : F.Eases env.flags)
    (agree : F.has .discourageUpgradableNops = true → F.has f = env.flags.has f)
    (h : later'.Follows later)
    (keeps : ∀ m', later = .running m' → ∃ journal, m' = { m with journal }) :
    (if F.has f then later' else ({ m with journal } : Machine).reserved (env.under F)).Follows
      (if env.flags.has f then later else m.reserved env) := by
  by_cases known : env.flags.has f = true
  · rw [if_pos known]
    by_cases known' : F.has f = true
    · rw [if_pos known']
      exact h
    · have tolerated : ¬F.has .discourageUpgradableNops = true := fun discouraged =>
        known' ((agree discouraged).trans known)
      rw [if_neg known', reserved, Env.under, if_neg tolerated]
      -- the follower does nothing, and the leader has only asked
      intro m' ran
      obtain ⟨journal', rfl⟩ := keeps m' ran
      exact ⟨journal, rfl⟩
  · rw [if_neg known, if_neg (known ∘ Flags.has_of_contains eases.subset)]
    exact reserved_follows eases

/-- Asking about a time leaves everything but the journal as it is. -/
theorem askTime_keeps {q : Query} {m' : Machine} (ran : m.askTime env q = .running m') :
    ∃ journal, m' = { m with journal } := by
  simp only [askTime, Journal.ask] at ran
  split at ran
  next => exact ⟨_, (Outcome.running.inj ran).symm⟩
  next => cases ran
  next => cases ran

/-- A check that passes changes the journal only, so leaving it out changes no more. -/
theorem checkLockTime_keeps {m' : Machine} (ran : m.checkLockTime env = .running m') :
    ∃ journal, m' = { m with journal } := by
  rw [checkLockTime] at ran
  split at ran
  next => cases ran
  next =>
    split at ran
    next => cases ran
    next =>
      split at ran
      next => cases ran
      next => exact askTime_keeps ran

theorem checkSequence_keeps {m' : Machine} (ran : m.checkSequence env = .running m') :
    ∃ journal, m' = { m with journal } := by
  rw [checkSequence] at ran
  split at ran
  next => cases ran
  next =>
    split at ran
    next => cases ran
    next =>
      split at ran
      next => cases ran
      next =>
        split at ran
        next => exact ⟨m.journal, (Outcome.running.inj ran).symm⟩
        next => exact askTime_keeps ran

theorem checkColdStake_keeps {m' : Machine} (ran : m.checkColdStake env = .running m') :
    ∃ journal, m' = { m with journal } := by
  rw [checkColdStake] at ran
  split at ran
  next =>
    split at ran
    next => exact ⟨_, (Outcome.running.inj ran).symm⟩
    next => cases ran
  next => cases ran

theorem checkLockTime_follows (eases : F.Eases env.flags) (pure : env.checker.IsPure) :
    (({ m with journal } : Machine).checkLockTime (env.under F)).Follows (m.checkLockTime env) := by
  rcases items : m.stack with _ | ⟨top, rest⟩ <;> simp only [checkLockTime, items]
  · exact follows_fail
  · refine readNumber_follows eases (by decide) fun value => ?_
    refine guard_follows id fun _ => ?_
    rw [← items]
    exact askTime_follows pure

theorem checkSequence_follows (eases : F.Eases env.flags) (pure : env.checker.IsPure) :
    (({ m with journal } : Machine).checkSequence (env.under F)).Follows (m.checkSequence env) := by
  rcases items : m.stack with _ | ⟨top, rest⟩ <;> simp only [checkSequence, items]
  · exact follows_fail
  · refine readNumber_follows eases (by decide) fun value => ?_
    refine guard_follows id fun _ => ?_
    rw [← items]
    split
    next => exact running_follows
    next => exact askTime_follows pure

theorem checkColdStake_follows :
    (({ m with journal } : Machine).checkColdStake (env.under F)).Follows
      (m.checkColdStake env) := by
  rcases spender : env.checker.transaction with _ | tx <;>
    simp only [checkColdStake, Env.under, spender]
  · exact follows_fail
  · split
    next =>
      rintro _ ⟨⟩
      exact ⟨_, rfl⟩
    next => exact follows_fail

theorem openBranch_follows (eases : F.Eases env.flags) {inverted : Bool} :
    (({ m with journal } : Machine).openBranch (env.under F) inverted).Follows
      (m.openBranch env inverted) := by
  have same : ({ m with journal } : Machine).executing = m.executing := rfl
  rw [openBranch, openBranch, same]
  split
  next =>
    rcases items : m.stack with _ | ⟨top, rest⟩ <;> simp only
    · exact follows_fail
    · exact guard_follows eases.and_has_and fun _ => running_follows
  next => exact running_follows

theorem switchBranch_follows :
    ({ m with journal } : Machine).switchBranch.Follows m.switchBranch := by
  rcases branches : m.conditions with _ | ⟨c, cs⟩ <;> simp only [switchBranch, branches]
  · exact follows_fail
  · exact running_follows

theorem closeBranch_follows : ({ m with journal } : Machine).closeBranch.Follows m.closeBranch := by
  rcases branches : m.conditions with _ | ⟨c, cs⟩ <;> simp only [closeBranch, branches]
  · exact follows_fail
  · exact running_follows

theorem fetch_follows (eases : F.Eases env.flags) {move : Bool} :
    (({ m with journal } : Machine).fetch (env.under F) move).Follows (m.fetch env move) := by
  rcases items : m.stack with _ | ⟨top, _ | ⟨next, rest⟩⟩ <;> simp only [fetch, items]
  · exact follows_fail
  · exact follows_fail
  · refine readNumber_follows eases (by decide) fun value => ?_
    refine guard_follows id fun _ => ?_
    rcases (next :: rest)[(ScriptNum.clamp32 value).toNat]? with _ | item
    · exact follows_fail
    · exact running_follows

theorem unary_follows (eases : F.Eases env.flags) {f : Unary} :
    (({ m with journal } : Machine).unary (env.under F) f).Follows (m.unary env f) := by
  rcases items : m.stack with _ | ⟨a, rest⟩ <;> simp only [unary, items]
  · exact follows_fail
  · refine readNumber_follows eases (by decide) fun value => ?_
    rcases signed64 (f.apply value) with fault | result
    · exact follows_halt
    · exact running_follows

theorem binary_follows (eases : F.Eases env.flags) {f : Binary} {verify : Bool} :
    (({ m with journal } : Machine).binary (env.under F) f verify).Follows
      (m.binary env f verify) := by
  rcases items : m.stack with _ | ⟨b, _ | ⟨a, rest⟩⟩ <;> simp only [binary, items]
  · exact follows_fail
  · exact follows_fail
  · refine readNumber_follows eases (by decide) fun first => ?_
    refine readNumber_follows eases (by decide) fun second => ?_
    rcases signed64 (f.apply first second) with fault | result
    · exact follows_halt
    · dsimp only
      split
      next => exact conclude_follows
      next => exact running_follows

theorem within_follows (eases : F.Eases env.flags) :
    (({ m with journal } : Machine).within (env.under F)).Follows (m.within env) := by
  rcases items : m.stack with _ | ⟨high, _ | ⟨low, _ | ⟨x, rest⟩⟩⟩ <;>
    simp only [within, items]
  · exact follows_fail
  · exact follows_fail
  · exact follows_fail
  · refine readNumber_follows eases (by decide) fun _ => ?_
    refine readNumber_follows eases (by decide) fun _ => ?_
    refine readNumber_follows eases (by decide) fun _ => ?_
    exact conclude_follows

/-! ### Signatures -/

/-- A signature check ends alike under fewer flags: what was allowed still is, and the answer is
pure. -/
theorem checkSig_follows (eases : F.Eases env.flags) (pure : env.checker.IsPure) {verify : Bool} :
    (({ m with journal } : Machine).checkSig (env.under F) verify).Follows
      (m.checkSig env verify) := by
  rcases items : m.stack with _ | ⟨key, _ | ⟨sig, rest⟩⟩ <;> simp only [checkSig, items]
  · exact follows_fail
  · exact follows_fail
  rcases signed : m.signedCode env [sig] with fault | code
  · exact follows_halt
  have signed' : ({ m with journal } : Machine).signedCode (env.under F) [sig] = .ok code := signed
  rw [← items, signed']
  dsimp only
  rcases forms : env.flags.checkForms env.version sig key with stop | _
  · exact follows_halt
  have forms' : F.checkForms env.version sig key = .ok () :=
    Flags.checkForms_of_contains eases.subset forms
  have same : env.checker.respond journal.calls (.signature sig key code env.version) =
      env.checker.respond m.journal.calls (.signature sig key code env.version) :=
    pure.respond_eq ..
  simp only [Env.under, forms', Journal.ask, same]
  rcases env.checker.respond m.journal.calls (.signature sig key code env.version) with _ | _ | text
  · exact conclude_follows
  · exact guard_follows eases.has_and fun _ => conclude_follows
  · exact follows_halt

/-- A key that the checker takes for the signature settles both. -/
theorem matchKeys_of_yes {code sig key : Bytes} {sigs keys : List Bytes}
    (allowed : env.flags.checkForms env.version sig key = .ok ())
    (yes : env.checker.respond journal.calls (.signature sig key code env.version) = .yes) :
    matchKeys env code (sig :: sigs) (key :: keys) journal =
      let after := (journal.ask env.checker (.signature sig key code env.version)).2
      if keys.length < sigs.length then (.ok false, after)
      else matchKeys env code sigs keys after := by
  rw [matchKeys, allowed]
  simp only [Journal.ask, yes]

/-- A key that the checker refuses is passed over. -/
theorem matchKeys_of_no {code sig key : Bytes} {sigs keys : List Bytes}
    (allowed : env.flags.checkForms env.version sig key = .ok ())
    (no : env.checker.respond journal.calls (.signature sig key code env.version) = .no) :
    matchKeys env code (sig :: sigs) (key :: keys) journal =
      let after := (journal.ask env.checker (.signature sig key code env.version)).2
      if keys.length < sigs.length + 1 then (.ok false, after)
      else matchKeys env code (sig :: sigs) keys after := by
  rw [matchKeys, allowed]
  simp only [Journal.ask, no]

/-- The result of matching keys, where there is one, is the same under fewer flags. -/
theorem matchKeys_of_eases (eases : F.Eases env.flags) (pure : env.checker.IsPure) {code : Bytes}
    {sigs keys : List Bytes} {before : Journal} {success : Bool}
    (h : (matchKeys env code sigs keys before).1 = .ok success) :
    (matchKeys (env.under F) code sigs keys journal).1 = .ok success := by
  have allowed' : ∀ {sig key}, env.flags.checkForms env.version sig key = .ok () →
      (env.under F).flags.checkForms (env.under F).version sig key = .ok () :=
    Flags.checkForms_of_contains eases.subset
  -- the follower asks the same questions, but from a journal of its own
  have asked' : ∀ {q reply before after} (journal : Journal),
      Journal.ask before env.checker q = (reply, after) →
        (env.under F).checker.respond journal.calls q = reply :=
    fun _ asked => (pure.respond_eq ..).trans (congrArg Prod.fst asked)
  fun_induction matchKeys env code sigs keys before generalizing journal with
  | case1 => rw [matchKeys, ← h]
  | case2 => rw [matchKeys, ← h]
  | case3 => cases h
  | case4 => cases h
  | case5 sig sigs key keys before allowed after asked few =>
    rw [matchKeys_of_yes (allowed' allowed) (asked' journal asked)]
    simp only [if_pos few, ← h]
  | case6 sig sigs key keys before allowed after asked enough ih =>
    rw [matchKeys_of_yes (allowed' allowed) (asked' journal asked)]
    simp only [if_neg enough, ih h]
  | case7 sig sigs key keys before allowed after asked few =>
    rw [matchKeys_of_no (allowed' allowed) (asked' journal asked)]
    simp only [if_pos few, ← h]
  | case8 sig sigs key keys before allowed after asked enough ih =>
    rw [matchKeys_of_no (allowed' allowed) (asked' journal asked)]
    simp only [if_neg enough, ih h]

theorem readCount_of_eases (eases : F.Eases env.flags) {bound : Nat} {item : Bytes}
    {count : Option Nat} (h : readCount env bound item = .ok count) :
    readCount (env.under F) bound item = .ok count := by
  rw [readCount] at h ⊢
  rcases read : env.flags.readNumber Limit.number item with stop | value
  · rw [read] at h
    cases h
  · have read' : (env.under F).flags.readNumber Limit.number item = .ok value :=
      Flags.readNumber_of_contains eases.subset (by decide) read
    rw [read] at h
    rw [read']
    exact h

theorem settleMultiSig_follows (eases : F.Eases env.flags) {verify success : Bool} {taken : Nat}
    {sigs : List Bytes} :
    (settleMultiSig (env.under F) verify taken sigs success { m with journal }).Follows
      (settleMultiSig env verify taken sigs success m) := by
  rw [settleMultiSig, settleMultiSig]
  refine guard_follows eases.and_has_and fun _ => ?_
  rcases m.stack.drop taken with _ | ⟨dummy, rest⟩ <;> simp only
  · exact follows_fail
  · exact guard_follows eases.has_and fun _ => conclude_follows

/-- The check of several signatures ends alike under fewer flags. -/
theorem checkMultiSig_follows (eases : F.Eases env.flags) (pure : env.checker.IsPure)
    {verify : Bool} :
    (({ m with journal } : Machine).checkMultiSig (env.under F) verify).Follows
      (m.checkMultiSig env verify) := by
  rcases items : m.stack with _ | ⟨keyCount, belowCount⟩ <;> simp only [checkMultiSig, items]
  · exact follows_fail
  rcases keys : readCount env Limit.keys keyCount with stop | _ | k
  · exact follows_halt
  · exact follows_fail
  -- a number that is read under the flags is read under fewer ones
  rw [readCount_of_eases eases keys]
  refine guard_follows id fun _ => ?_
  rcases belowCount.drop k with _ | ⟨sigCount, belowKeys⟩
  · exact follows_fail
  dsimp only
  rcases sigs : readCount env k sigCount with stop | _ | s
  · exact follows_halt
  · exact follows_fail
  rw [readCount_of_eases eases sigs]
  refine guard_follows id fun _ => ?_
  rw [← items]
  rcases signed : ({ m with opCount := m.opCount + k } : Machine).signedCode env
    (belowKeys.take s) with fault | code
  · exact follows_halt
  have signed' : ({ m with opCount := m.opCount + k, journal } : Machine).signedCode (env.under F)
      (belowKeys.take s) = .ok code := signed
  rw [signed']
  dsimp only
  rcases matched : matchKeys env code (belowKeys.take s) (belowCount.take k) m.journal with
    ⟨stop | success, after⟩
  · exact follows_halt
  -- the journals may differ, as the checker does not look at what was asked before
  obtain ⟨after', matched'⟩ : ∃ after', matchKeys (env.under F) code (belowKeys.take s)
      (belowCount.take k) journal = (.ok success, after') :=
    ⟨_, Prod.ext (matchKeys_of_eases eases pure (congrArg Prod.fst matched)) rfl⟩
  rw [matched']
  exact settleMultiSig_follows eases

/-! ## Operations, steps and runs -/

/-- **One operation**: what runs on under the flags runs on under fewer ones. -/
theorem perform_follows (eases : F.Eases env.flags) (pure : env.checker.IsPure) (op : Operation) :
    (({ m with journal } : Machine).perform (env.under F) op).Follows (m.perform env op) := by
  cases op <;> simp only [perform]
  case number n => exact running_follows
  case nop => exact running_follows
  case reservedNop => exact reserved_follows eases
  -- a check that is not asked for any more does nothing, and the check itself changes nothing
  case checkLockTime =>
    exact later_follows eases (fun h => (eases.nops h).1) (checkLockTime_follows eases pure)
      fun _ => checkLockTime_keeps
  case checkSequence =>
    exact later_follows eases (fun h => (eases.nops h).2.1) (checkSequence_follows eases pure)
      fun _ => checkSequence_keeps
  case checkColdStake =>
    exact later_follows eases (fun h => (eases.nops h).2.2) checkColdStake_follows
      fun _ => checkColdStake_keeps
  case openBranch inverted => exact openBranch_follows eases
  case switchBranch => exact switchBranch_follows
  case closeBranch => exact closeBranch_follows
  case forbidden => exact follows_fail
  -- what only looks at the stacks does not look at the flags
  case verify =>
    rcases items : m.stack with _ | ⟨top, rest⟩ <;> dsimp only
    · exact follows_fail
    · split
      next => exact running_follows
      next => exact follows_fail
  case abort => exact follows_fail
  case toAlt =>
    rcases m.stack with _ | ⟨top, rest⟩
    · exact follows_fail
    · exact running_follows
  case fromAlt =>
    rcases m.alt with _ | ⟨top, rest⟩
    · exact follows_fail
    · exact running_follows
  case arrange a =>
    rcases a.apply m.stack with _ | stack
    · exact follows_fail
    · exact running_follows
  case fetch move => exact fetch_follows eases
  case equal verify =>
    rcases m.stack with _ | ⟨b, _ | ⟨a, rest⟩⟩
    · exact follows_fail
    · exact follows_fail
    · exact conclude_follows
  case unary f => exact unary_follows eases
  case binary f verify => exact binary_follows eases
  case within => exact within_follows eases
  case hash f =>
    rcases m.stack with _ | ⟨top, rest⟩
    · exact follows_fail
    · exact running_follows
  case codeSeparator => exact running_follows
  case checkSig verify => exact checkSig_follows eases pure
  case checkMultiSig verify => exact checkMultiSig_follows eases pure
  case invalid => exact follows_fail

/-- **One instruction** under fewer flags follows the one under more. -/
theorem execute_follows (eases : F.Eases env.flags) (pure : env.checker.IsPure) (i : Instruction) :
    (({ m with journal } : Machine).execute (env.under F) i).Follows (m.execute env i) := by
  have same : ({ m with journal } : Machine).executing = m.executing := rfl
  rcases data : i.data with _ | data <;> simp only [execute, data, same]
  · split
    next => exact perform_follows eases pure _
    next => exact running_follows
  · split
    next => exact guard_follows eases.has_and fun _ => running_follows
    next => exact running_follows

theorem checkStackSize_follows (h : o'.Follows o) :
    (checkStackSize o').Follows (checkStackSize o) := by
  rcases o with m | ⟨stop, m⟩
  · obtain ⟨journal, rfl⟩ := h m rfl
    exact guard_follows id fun _ => running_follows
  · exact follows_halt

/-- **One instruction.** -/
theorem step_follows (eases : F.Eases env.flags) (pure : env.checker.IsPure) (i : Instruction) :
    (({ m with journal } : Machine).step (env.under F) i).Follows (m.step env i) := by
  simp only [step]
  refine guard_follows id fun _ => guard_follows id fun _ => guard_follows id fun _ => ?_
  exact checkStackSize_follows (execute_follows eases pure i)

/-- **One script**, by induction on its instructions: the state that the leader hands on is
the state that the follower hands on. -/
theorem run_follows (eases : F.Eases env.flags) (pure : env.checker.IsPure)
    (is : List Instruction) :
    (run (env.under F) is { m with journal }).Follows (run env is m) := by
  induction is generalizing m journal with
  | nil => exact running_follows
  | cons i is ih =>
    rcases first : m.step env i with m' | ⟨stop, m'⟩
    · obtain ⟨journal', first'⟩ := @step_follows env F m journal eases pure i m' first
      simp only [run, first, first']
      exact ih
    · simp only [run, first]
      exact follows_halt

theorem finish_follows {tail : Bytes} (h : o'.Follows o) :
    (finish tail o').Follows (finish tail o) := by
  rcases o with m | ⟨stop, m⟩
  · obtain ⟨journal, rfl⟩ := h m rfl
    exact guard_follows id fun _ => guard_follows id fun _ => running_follows
  · exact follows_halt

end Machine

/-- **One evaluation**: what ends well under the flags ends well under fewer ones, with the
same stack. -/
theorem Script.evaluate_follows {F G : Flags} {checker : Checker} (eases : F.Eases G)
    (pure : checker.IsPure) {version : SigVersion} {script : Bytes} {stack : Stack Bytes}
    {journal journal' : Journal} :
    (evaluate F checker version script stack journal').Follows
      (evaluate G checker version script stack journal) := by
  simp only [evaluate]
  refine Machine.guard_follows id fun _ => Machine.finish_follows ?_
  exact @Machine.run_follows ⟨G, checker, version, script⟩ F _ _ eases pure _

/-! ## Verifications -/

namespace Run

/-- Wherever the run `r` is not stopped, `r'` is not stopped either; under a condition both
leave the same stack. -/
def Follows (same : Prop) (r' r : Run) : Prop :=
  r.stop = none → r'.stop = none ∧ (same → r'.stack = r.stack)

variable {same : Prop} {r r' : Run}

theorem fail_follows {e : ScriptError} : r'.Follows same (r.fail e) := nofun

/-- A check that the follower makes under narrower conditions. -/
theorem guard_follows {a b : Prop} [Decidable a] [Decidable b] {n n' : Run} {e e' : ScriptError}
    (narrower : b → a) (h : ¬a → r'.Follows same r) :
    (if b then n'.fail e' else r').Follows same (if a then n.fail e else r) := by
  by_cases stops : a
  · rw [if_pos stops]
    exact fail_follows
  · rw [if_neg stops, if_neg (stops ∘ narrower)]
    exact h stops

/-- What the follower requires follows from what the leader requires. -/
theorem require_follows {holds holds' : Bool} {e e' : ScriptError}
    (weaker : holds = true → holds' = true)
    (running : r'.stop = none) (agree : same → r'.stack = r.stack) :
    (r'.require holds' e').Follows same (r.require holds e) := by
  rcases required : holds with _ | _
  · exact fail_follows
  · rw [weaker required]
    exact fun _ => ⟨running, agree⟩

/-- Runs are chained in lock step. -/
theorem andThen_follows {same' : Prop} {next next' : Run → Run} (h : r'.Follows same r)
    (h' : ∀ s s' : Run, s'.stop = none → (same → s'.stack = s.stack) →
      (next' s').Follows same' (next s)) :
    (r'.andThen next').Follows same' (r.andThen next) := by
  rcases stopped : r.stop with _ | stop
  · obtain ⟨stopped', agree⟩ := h stopped
    simp only [andThen, stopped, stopped']
    exact h' r r' stopped' agree
  · simp only [andThen, stopped]
    intro running
    rw [stopped] at running
    cases running

end Run

namespace Script

variable {F G : Flags} {checker : Checker} {witness : List Bytes} {journal journal' : Journal}
  {r r' : Run}

/-- One script of a verification under fewer flags, from the same stack. -/
theorem resume_follows (eases : F.Eases G) (pure : checker.IsPure) {version : SigVersion}
    {script : Bytes} (agree : r'.stack = r.stack) :
    (resume ⟨F, checker⟩ version script r').Follows True
      (resume ⟨G, checker⟩ version script r) := by
  rw [resume, resume, agree]
  rcases outcome : evaluate G checker version script r.stack r.journal with m | ⟨stop, m⟩
  · obtain ⟨journal, outcome'⟩ :=
      @evaluate_follows F G checker eases pure version script r.stack r.journal r'.journal m outcome
    rw [outcome']
    exact fun _ => ⟨rfl, fun _ => rfl⟩
  · intro running
    cases running

theorem runWitness_follows (eases : F.Eases G) (pure : checker.IsPure) {script : Bytes} :
    (runWitness ⟨F, checker⟩ script witness journal').Follows True
      (runWitness ⟨G, checker⟩ script witness journal) := by
  simp only [runWitness]
  refine Run.guard_follows id fun _ => ?_
  refine Run.andThen_follows (resume_follows eases pure rfl) fun _ _ running agree => ?_
  refine Run.require_follows (fun holds => ?_) running agree
  rw [agree trivial]
  exact holds

theorem checkWitnessProgram_follows (eases : F.Eases G) (pure : checker.IsPure) {version : Nat}
    {program : Bytes} :
    (checkWitnessProgram ⟨F, checker⟩ witness version program journal').Follows True
      (checkWitnessProgram ⟨G, checker⟩ witness version program journal) := by
  simp only [checkWitnessProgram]
  split
  next =>
    refine Run.guard_follows (Flags.has_of_contains eases.subset) fun _ => ?_
    exact fun _ => ⟨rfl, fun _ => rfl⟩
  next =>
  split
  next =>
    rcases witness.getLast? with _ | script
    · exact Run.fail_follows
    · exact Run.guard_follows id fun _ => runWitness_follows eases pure
  next =>
  split
  next => exact Run.guard_follows id fun _ => runWitness_follows eases pure
  next => exact Run.fail_follows

/-- A witness that the leader looks at the follower may pass over, and then keeps a stack of
its own. -/
theorem checkWitness_follows (eases : F.Eases G) (pure : checker.IsPure) {script : Bytes}
    {untouched : Bool} {malleated : ScriptError} (running : r'.stop = none)
    (agree : F.has .witness = true → r'.stack = r.stack) :
    (checkWitness ⟨F, checker⟩ script witness untouched malleated r').Follows
      (F.has .witness = true)
      (checkWitness ⟨G, checker⟩ script witness untouched malleated r) := by
  by_cases looks : F.has .witness = true
  · simp only [checkWitness, if_pos looks, if_pos (Flags.has_of_contains eases.subset looks)]
    rcases witnessProgram? script with _ | ⟨version, program⟩ <;> dsimp only
    · exact fun _ => ⟨running, agree⟩
    · refine Run.guard_follows id fun _ ran => ?_
      obtain ⟨ran', -⟩ := @checkWitnessProgram_follows F G checker witness r.journal r'.journal
        eases pure version program ran
      simp only at ran
      exact ⟨ran', fun _ => by simp only [ran, ran', Option.isNone_none, if_true]⟩
  · simp only [checkWitness, if_neg looks]
    exact fun _ => ⟨running, fun h => absurd h looks⟩

/-- A redeem script under fewer flags; the stacks agree as long as witnesses are looked at. -/
theorem checkRedeemScript_follows (eases : F.Eases G) (pure : checker.IsPure) {scriptSig : Bytes}
    {pushed : Stack Bytes} :
    (checkRedeemScript ⟨F, checker⟩ scriptSig witness pushed r').Follows (F.has .witness = true)
      (checkRedeemScript ⟨G, checker⟩ scriptSig witness pushed r) := by
  simp only [checkRedeemScript]
  refine Run.guard_follows id fun _ => ?_
  rcases pushed with _ | ⟨redeem, below⟩ <;> dsimp only
  · exact Run.fail_follows
  · have first :
        ((resume ⟨F, checker⟩ .legacy redeem { stack := below, journal := r'.journal }).andThen
        fun r => r.require (endsTrue r.stack) .evalFalse).Follows True
        ((resume ⟨G, checker⟩ .legacy redeem { stack := below, journal := r.journal }).andThen
        fun r => r.require (endsTrue r.stack) .evalFalse) := by
      refine Run.andThen_follows (resume_follows eases pure rfl) fun _ _ running agree => ?_
      refine Run.require_follows (fun holds => ?_) running agree
      rw [agree trivial]
      exact holds
    have inner := Run.andThen_follows first fun _ _ running agree =>
      @checkWitness_follows F G checker witness _ _ eases pure redeem
        (scriptSig == pushData redeem) .witnessMalleatedP2SH running fun _ => agree trivial
    intro ran
    obtain ⟨ran', agree⟩ := inner ran
    simp only at ran
    refine ⟨ran', fun looks => ?_⟩
    simp only [ran, ran', Option.isNone_none, if_true]
    exact agree looks

/-- Flags that look behind hashes do so for the same scripts. -/
theorem looksBehindHash_eq (eases : F.Eases G) (asks : F.has .p2sh = true) (scriptPubkey : Bytes) :
    looksBehindHash F scriptPubkey = looksBehindHash G scriptPubkey := by
  rw [looksBehindHash, looksBehindHash, asks, Flags.has_of_contains eases.subset asks]

/-- A script behind a hash that only the leader looks at comes with no witness of its own. -/
theorem behindHash_follows (eases : F.Eases G)
    (behind : F.has .witness = true → F.has .p2sh = true)
    (pure : checker.IsPure) {scriptSig scriptPubkey : Bytes} {pushed pushed' : Stack Bytes}
    (same : pushed' = pushed) (running : r'.stop = none)
    (agree : F.has .witness = true → r'.stack = r.stack) :
    (if looksBehindHash F scriptPubkey
      then checkRedeemScript ⟨F, checker⟩ scriptSig witness pushed' r'
      else r').Follows (F.has .witness = true)
    (if looksBehindHash G scriptPubkey
      then checkRedeemScript ⟨G, checker⟩ scriptSig witness pushed r
      else r) := by
  subst same
  by_cases looks : looksBehindHash F scriptPubkey = true
  · have asks : F.has .p2sh = true := (Bool.and_eq_true_iff.1 looks).1
    rw [if_pos looks, if_pos (looksBehindHash_eq eases asks scriptPubkey ▸ looks)]
    exact checkRedeemScript_follows eases pure
  · rw [if_neg looks]
    -- if the follower looks at witnesses, it looks behind hashes, and so the leader looked at
    -- neither
    refine fun _ => ⟨running, fun witnessed => ?_⟩
    rw [← looksBehindHash_eq eases (behind witnessed) scriptPubkey, if_neg looks]
    exact agree witnessed

/-- The follower asks for a clean stack only where the leader has left the same one. -/
theorem cleanStack_of_eases (eases : F.Eases G) {stack stack' : Stack Bytes}
    (agree : F.has .witness = true → stack' = stack)
    (holds : (!(G.has .cleanStack && G.has .p2sh && G.has .witness) || stack.length == 1) = true) :
    (!(F.has .cleanStack && F.has .p2sh && F.has .witness) || stack'.length == 1) = true := by
  have more : ∀ {f}, F.has f = true → G.has f = true := Flags.has_of_contains eases.subset
  by_cases asked : (F.has .cleanStack && F.has .p2sh && F.has .witness) = true
  · obtain ⟨⟨clean, hash⟩, witnessed⟩ :
      (F.has .cleanStack = true ∧ F.has .p2sh = true) ∧
        F.has .witness = true := by
      simpa only [Bool.and_eq_true] using asked
    rw [more clean, more hash, more witnessed] at holds
    rw [agree witnessed, asked]
    exact holds
  · rw [Bool.eq_false_iff.2 asked]
    rfl

/-- The follower calls for a witness wherever the leader does, if it looks at witnesses. -/
theorem witnessExpected_of_eases (eases : F.Eases G)
    (behind : F.has .witness = true → F.has .p2sh = true) {scriptPubkey : Bytes}
    {pushed : Stack Bytes}
    (holds : (!G.has .witness || callsForWitness G scriptPubkey pushed || witness.isEmpty) = true) :
    (!F.has .witness || callsForWitness F scriptPubkey pushed || witness.isEmpty) = true := by
  by_cases witnessed : F.has .witness = true
  · have same : callsForWitness F scriptPubkey pushed = callsForWitness G scriptPubkey pushed := by
      rw [callsForWitness, callsForWitness, witnessed, Flags.has_of_contains eases.subset witnessed,
        looksBehindHash_eq eases (behind witnessed)]
    rw [Flags.has_of_contains eases.subset witnessed] at holds
    rw [witnessed, same]
    exact holds
  · rw [Bool.eq_false_iff.2 witnessed]
    rfl

/-- **One verification**: what is accepted under the flags is accepted under fewer ones. -/
theorem verify_follows (eases : F.Eases G) (behind : F.has .witness = true → F.has .p2sh = true)
    (pure : checker.IsPure) {scriptSig scriptPubkey : Bytes} :
    (verify ⟨F, checker⟩ scriptSig scriptPubkey witness journal').Follows
      (F.has .witness = true)
      (verify ⟨G, checker⟩ scriptSig scriptPubkey witness journal) := by
  simp only [verify]
  refine Run.guard_follows eases.has_and fun _ => ?_
  refine Run.andThen_follows (resume_follows eases pure rfl) fun signed signed' _ pushed => ?_
  refine Run.andThen_follows
    (resume_follows eases pure (pushed trivial)) fun r r' running agree => ?_
  -- up to here both runs have the same stack, from here on only if the follower looks at witnesses
  refine Run.andThen_follows (Run.require_follows (fun holds => ?_) running agree)
    fun r r' running agree => ?_
  · rw [agree trivial]
    exact holds
  refine Run.andThen_follows (checkWitness_follows eases pure running fun _ => agree trivial)
    fun r r' running agree => ?_
  refine Run.andThen_follows (behindHash_follows eases behind pure (pushed trivial) running agree)
    fun r r' running agree => ?_
  refine Run.andThen_follows (Run.require_follows (cleanStack_of_eases eases agree) running agree)
    fun r r' running agree => ?_
  rw [pushed trivial]
  exact Run.require_follows (witnessExpected_of_eases eases behind) running agree

end Script

/-! ## Contexts -/

namespace Context

/-- An evaluation ends well exactly if its outcome runs on. -/
theorem evalScript_accepts_iff {ctx : Context} {checker : Checker} {version : SigVersion}
    {script : Bytes} {journal : Journal} :
    (ctx.evalScript checker version script journal).1.accepts = true ↔
      ∃ m, Script.evaluate ctx.flags checker version script ctx.stack journal = .running m := by
  have explained := @Script.resume_isExplainedBy ⟨ctx.flags, checker⟩ version script
    { stack := ctx.stack, journal }
  refine (accepts_record_iff ctx explained).trans ?_
  rw [Script.resume]
  rcases Script.evaluate ctx.flags checker version script ctx.stack journal with m | ⟨stop, m⟩
  · exact iff_of_true rfl ⟨m, rfl⟩
  · refine ⟨?_, ?_⟩
    · intro running
      cases running
    · rintro ⟨m, runs⟩
      cases runs

theorem stack_evalScript {ctx : Context} {checker : Checker} {version : SigVersion} {script : Bytes}
    {journal : Journal} {m : Machine}
    (h : Script.evaluate ctx.flags checker version script ctx.stack journal = .running m) :
    (ctx.evalScript checker version script journal).1.stack = m.stack := by
  simp only [evalScript, h]
  rfl

theorem verifyScript_accepts_iff {ctx : Context} {checker : Checker}
    {scriptSig scriptPubkey : Bytes}
    {witness : List Bytes} {journal : Journal} :
    (ctx.verifyScript checker scriptSig scriptPubkey witness journal).1.accepts = true ↔
      (Script.verify ⟨ctx.flags, checker⟩ scriptSig scriptPubkey witness journal).stop = none :=
  accepts_record_iff ctx Script.verify_isExplainedBy

/-- **Fewer flags accept more.** Let `F` be some of the flags `G`, and let `F` agree with `G` on
the three later operations if it discourages operations it does not know. For a checker whose
answers depend on the question alone:

* what is verified under `G` is verified under `F`, provided that `F` looks behind hashes if it
  looks at witnesses;
* a script that ends well under `G` ends well under `F`, from any stack and with the same one
  left. -/
theorem accepts_of_fewer_flags {F G : Flags} {checker : Checker} (subset : G.contains F = true)
    (nops : F.has .discourageUpgradableNops = true →
      F.has .checkLockTimeVerify = G.has .checkLockTimeVerify ∧
        F.has .checkSequenceVerify = G.has .checkSequenceVerify ∧
        F.has .checkColdStakeVerify = G.has .checkColdStakeVerify)
    (pure : checker.IsPure) :
    ((F.has .witness = true → F.has .p2sh = true) →
      ∀ (ctx : Context) (scriptSig scriptPubkey : Bytes) (witness : List Bytes)
        (journal journal' : Journal),
        (({ ctx with flags := G } : Context).verifyScript checker scriptSig scriptPubkey witness
          journal).1.accepts = true →
        (({ ctx with flags := F } : Context).verifyScript checker scriptSig scriptPubkey witness
          journal').1.accepts = true) ∧
    ∀ (ctx : Context) (version : SigVersion) (script : Bytes) (journal journal' : Journal),
      let strict :=
        (({ ctx with flags := G } : Context).evalScript checker version script journal).1
      let lenient :=
        (({ ctx with flags := F } : Context).evalScript checker version script journal').1
      strict.accepts = true → lenient.accepts = true ∧ lenient.stack = strict.stack := by
  have eases : F.Eases G := ⟨subset, nops⟩
  refine ⟨?_, ?_⟩
  · intro behind ctx scriptSig scriptPubkey witness journal journal' accepted
    rw [verifyScript_accepts_iff] at accepted ⊢
    exact (Script.verify_follows eases behind pure accepted).1
  · intro ctx version script journal journal' strict lenient accepted
    obtain ⟨m, outcome⟩ := evalScript_accepts_iff.1 accepted
    obtain ⟨after, outcome'⟩ := @Script.evaluate_follows F G checker eases pure version script
      ctx.stack journal journal' m outcome
    refine ⟨evalScript_accepts_iff.2 ⟨_, outcome'⟩, ?_⟩
    have left' : lenient.stack = m.stack :=
      @stack_evalScript { ctx with flags := F } _ _ _ _ { m with journal := after } outcome'
    exact left'.trans (stack_evalScript outcome).symm

/-- The flags of a verifier that does not know all the rules of the standard ones. -/
def olderFlags : Flags :=
  .ofList [.p2sh, .witness, .discourageUpgradableNops, .checkLockTimeVerify, .checkSequenceVerify]

/-- An output that anyone can spend is spent under the standard flags, and so it is under
some of them. -/
theorem anyone_spends_under_fewer_flags :
    (({ flags := .standard } : Context).verifyScript .base [] [0x51] []).1.accepts = true ∧
      (({ flags := olderFlags } : Context).verifyScript .base [] [0x51] []).1.accepts = true := by
  have standard : (({ flags := .standard } : Context).verifyScript .base [] [0x51] []).1.accepts =
      true := by decide +kernel
  have fewer := @accepts_of_fewer_flags olderFlags .standard .base (by decide) (by decide)
    fun _ _ => rfl
  exact ⟨standard, fewer.1 (by decide) {} [] [0x51] [] {} {} standard⟩

end Context

end BlockRules
