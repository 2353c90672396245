import Mathlib
import BlockRules.Proofs.Script.Forms
import BlockRules.Proofs.Script.Numbers

/-!
# How evaluations end

A step of the machine computes offsets, reads numbers and calculates with them, and the
operations it uses for that have cases without a result. This module follows a run through
all of its steps and accounts for every way in which it can end:

* **the invariant** — `Machine.At`: the machine stands where its instructions have taken
  it, the signed part starts at an offset it has passed, and no more operations are counted
  than allowed;
* **the operands** — `Machine.operands`: the items that an operation reads as numbers;
* **one operation** — `Machine.perform_sound`: it keeps the invariant, or it fails with an
  error of its own, or with `unknownError` if it rejects an operand, or the checker broke
  down (`Outcome.Sound`);
* **a run** — `Machine.run_sound` by induction on the instructions, and from it
  `Script.evaluate_sound` for a whole script.

That the machine has no other way to break down is what makes the message of a broken
checker the only message there is.
-/

namespace BlockRules

/-- The checker breaks down at some question, and this is the message. -/
def Checker.CrashesWith (c : Checker) (message : String) : Prop :=
  ∃ before q text, c.respond before q = .crash text ∧ Stop.ofCrash text = .crashed message

theorem Checker.IsCalm.not_crashesWith {c : Checker} (calm : c.IsCalm) {message : String} :
    ¬c.CrashesWith message := by
  rintro ⟨before, q, text, crash, -⟩
  exact calm before q text crash

/-- A stop has a reason: an error stands for a broken rule, and is `unknownError` exactly
if an operand was rejected; a breakdown is one of the checker. -/
def Stop.IsExplained (checker : Checker) (rejected : Prop) : Stop → Prop
  | .failed e => e ≠ .ok ∧ (e = .unknownError ↔ rejected)
  | .crashed message => checker.CrashesWith message

/-- An explanation may say the same condition in other words. -/
theorem Stop.IsExplained.congr {checker : Checker} {a b : Prop} (same : a ↔ b) {stop : Stop}
    (h : stop.IsExplained checker a) : stop.IsExplained checker b := by
  cases stop with
  | failed e => exact ⟨h.1, h.2.trans same⟩
  | crashed message => exact h

/-- The machine stands at an offset, signs from one it has passed, and has not counted too
many operations. -/
def Machine.At (m : Machine) (p : Nat) : Prop :=
  m.position = p ∧ m.codeStart ≤ p ∧ m.opCount ≤ Limit.operations

/-- An outcome is accounted for: the machine runs on at an offset and no operand was
rejected, or the reason of its stop is known. -/
def Outcome.Sound (env : Env) (p : Nat) (rejected : Prop) : Outcome → Prop
  | .running m => m.At p ∧ ¬rejected
  | .halted stop _ => stop.IsExplained env.checker rejected

namespace Machine

/-! ## Operands -/

/-- The counts that a multi-signature check reads: the number of keys and, if that many
keys are allowed and there is an item below them, the number of signatures. -/
def countsRead (env : Env) (m : Machine) (keyCount : Bytes) (below : Stack Bytes) : List Operand :=
  .ofItem keyCount ::
    match readCount env Limit.keys keyCount with
    | .ok (some k) =>
      if Limit.operations < m.opCount + k then [] else ((below.drop k).take 1).map .ofItem
    | _ => []

/-- The items that an operation reads as numbers. -/
def operands (env : Env) (m : Machine) : Operation → List Operand
  | .checkLockTime =>
    if env.flags.has .checkLockTimeVerify then (m.stack.take 1).map .ofTime else []
  | .checkSequence =>
    if env.flags.has .checkSequenceVerify then (m.stack.take 1).map .ofTime else []
  | .fetch _ =>
    match m.stack with
    | top :: _ :: _ => [.ofItem top]
    | _ => []
  | .unary _ => (m.stack.take 1).map .ofItem
  | .binary _ _ =>
    match m.stack with
    | b :: a :: _ => [.ofItem a, .ofItem b]
    | _ => []
  | .within =>
    match m.stack with
    | high :: low :: x :: _ => [.ofItem x, .ofItem low, .ofItem high]
    | _ => []
  | .checkMultiSig _ =>
    match m.stack with
    | keyCount :: below => m.countsRead env keyCount below
    | [] => []
  | _ => []

/-- The operation rejects one of the numbers it reads. -/
def Rejects (env : Env) (m : Machine) (op : Operation) : Prop :=
  ∃ o ∈ m.operands env op, o.IsRejected env.flags

instance (env : Env) (m : Machine) (op : Operation) : Decidable (m.Rejects env op) :=
  inferInstanceAs (Decidable (∃ o ∈ m.operands env op, o.IsRejected env.flags))

/-! ## Single outcomes -/

variable {env : Env} {m : Machine} {p : Nat} {rejected : Prop}

theorem running_sound (h : m.At p) (fine : ¬rejected) :
    (Outcome.running m).Sound env p rejected := ⟨h, fine⟩

theorem fail_sound {e : ScriptError} (named : e.NamesRule) (fine : ¬rejected) :
    (m.fail e).Sound env p rejected := ⟨named.1, iff_of_false named.2 fine⟩

/-- An operand that is rejected explains the `unknownError` it ends with. -/
theorem halt_sound (bad : rejected) : (m.halt (.failed .unknownError)).Sound env p rejected :=
  ⟨by decide, iff_of_true rfl bad⟩

/-- A breakdown of the checker explains the message it ends with. -/
theorem crash_sound {before : List Query} {q : Query} {text : Option String}
    (crash : env.checker.respond before q = .crash text) :
    (m.halt (.ofCrash text)).Sound env p rejected := ⟨before, q, text, crash, rfl⟩

theorem conclude_sound {ifFalse : Option ScriptError} {holds : Bool} (h : m.At p)
    (fine : ¬rejected) (named : ∀ e, ifFalse = some e → e.NamesRule) :
    (m.conclude ifFalse holds).Sound env p rejected := by
  rcases ifFalse with _ | e
  · exact running_sound h fine
  · cases holds with
    | false => exact fail_sound (named e rfl) fine
    | true => exact running_sound h fine

/-- An operation that checks its result at once names the error it was given. -/
theorem whenVerified_names {verify : Bool} {e : ScriptError} (named : e.NamesRule) :
    ∀ e', whenVerified verify e = some e' → e'.NamesRule := by
  rintro e' given
  cases verify with
  | false => cases given
  | true =>
    cases given
    exact named

theorem reserved_sound (h : m.At p) (fine : ¬rejected) :
    (m.reserved env).Sound env p rejected := by
  rw [reserved]
  split
  next => exact fail_sound (by decide) fine
  next => exact running_sound h fine

/-- A question about a time reads no number: it ends with a rule or a crash of the checker. -/
theorem askTime_sound {q : Query} (h : m.At p) (fine : ¬rejected) :
    (m.askTime env q).Sound env p rejected := by
  rcases reply : env.checker.respond m.journal.calls q with _ | _ | text <;>
    simp only [askTime, Journal.ask, reply]
  · exact running_sound h fine
  · exact fail_sound (by decide) fine
  · exact crash_sound reply

/-! ## Single operations -/

/-- An operation that reads one number: what is left to show is what it does with it. -/
theorem readNumber_sound {limit : Nat} {item : Bytes} {next : Int → Outcome} (small : limit ≤ 8)
    (reads : Operand.IsRejected env.flags ⟨item, limit⟩ → rejected)
    (accepted : ¬Operand.IsRejected env.flags ⟨item, limit⟩ →
      (next (ScriptNum.value item)).Sound env p rejected) :
    (match env.flags.readNumber limit item with
      | .error stop => m.halt stop
      | .ok n => next n).Sound env p rejected := by
  by_cases bad : Operand.IsRejected env.flags ⟨item, limit⟩
  · rw [Flags.readNumber_of_rejected bad]
    exact halt_sound (reads bad)
  · rw [Flags.readNumber_of_accepted small bad]
    exact accepted bad

/-- An operand of a calculation that is not rejected has at most four bytes. -/
theorem natAbs_value_lt_of_accepted {item : Bytes}
    (fine : ¬Operand.IsRejected env.flags ⟨item, Limit.number⟩) :
    (ScriptNum.value item).natAbs < 2 ^ 31 :=
  ScriptNum.natAbs_value_lt_of_short (Nat.le_of_not_lt (not_or.1 fine).1)

/-- The check of a lock time rejects its operand or nothing. -/
theorem checkLockTime_sound (h : m.At p)
    (rejects : rejected ↔ ∃ o ∈ (m.stack.take 1).map Operand.ofTime, o.IsRejected env.flags) :
    (m.checkLockTime env).Sound env p rejected := by
  rcases items : m.stack with _ | ⟨top, rest⟩ <;> simp only [checkLockTime, items]
  · exact fail_sound (by decide) (by simp [rejects, items])
  · replace rejects : rejected ↔ Operand.IsRejected env.flags ⟨top, Limit.lockTime⟩ := by
      simp [rejects, items, Operand.ofTime]
    refine readNumber_sound (by decide) rejects.2 fun fine => ?_
    have fine : ¬rejected := fun bad => fine (rejects.1 bad)
    split
    next => exact fail_sound (by decide) fine
    next => exact askTime_sound h fine

theorem checkSequence_sound (h : m.At p)
    (rejects : rejected ↔ ∃ o ∈ (m.stack.take 1).map Operand.ofTime, o.IsRejected env.flags) :
    (m.checkSequence env).Sound env p rejected := by
  rcases items : m.stack with _ | ⟨top, rest⟩ <;> simp only [checkSequence, items]
  · exact fail_sound (by decide) (by simp [rejects, items])
  · replace rejects : rejected ↔ Operand.IsRejected env.flags ⟨top, Limit.lockTime⟩ := by
      simp [rejects, items, Operand.ofTime]
    refine readNumber_sound (by decide) rejects.2 fun fine => ?_
    have fine : ¬rejected := fun bad => fine (rejects.1 bad)
    split
    next => exact fail_sound (by decide) fine
    next =>
    split
    next => exact running_sound h fine
    next => exact askTime_sound h fine

theorem checkColdStake_sound (h : m.At p) (fine : ¬rejected) :
    (m.checkColdStake env).Sound env p rejected := by
  rcases spender : env.checker.transaction with _ | tx <;> simp only [checkColdStake, spender]
  · exact fail_sound (by decide) fine
  · split
    next => exact running_sound h fine
    next => exact fail_sound (by decide) fine

theorem openBranch_sound {inverted : Bool} (h : m.At p) (fine : ¬rejected) :
    (m.openBranch env inverted).Sound env p rejected := by
  rw [openBranch]
  split
  next =>
    rcases items : m.stack with _ | ⟨top, rest⟩ <;> simp only
    · exact fail_sound (by decide) fine
    · split
      next => exact fail_sound (by decide) fine
      next => exact running_sound h fine
  next => exact running_sound h fine

theorem switchBranch_sound (h : m.At p) (fine : ¬rejected) :
    m.switchBranch.Sound env p rejected := by
  rcases branches : m.conditions with _ | ⟨c, cs⟩ <;> simp only [switchBranch, branches]
  · exact fail_sound (by decide) fine
  · exact running_sound h fine

theorem closeBranch_sound (h : m.At p) (fine : ¬rejected) :
    m.closeBranch.Sound env p rejected := by
  rcases branches : m.conditions with _ | ⟨c, cs⟩ <;> simp only [closeBranch, branches]
  · exact fail_sound (by decide) fine
  · exact running_sound h fine

/-- Fetching rejects the count on top or nothing. -/
theorem fetch_sound (move : Bool) (h : m.At p) :
    (m.fetch env move).Sound env p (m.Rejects env (.fetch move)) := by
  rcases items : m.stack with _ | ⟨top, _ | ⟨next, rest⟩⟩ <;> simp only [fetch, items]
  · exact fail_sound (by decide) (by simp [Rejects, operands, items])
  · exact fail_sound (by decide) (by simp [Rejects, operands, items])
  · have rejects : m.Rejects env (.fetch move) ↔
        Operand.IsRejected env.flags ⟨top, Limit.number⟩ := by
      simp [Rejects, operands, items, Operand.ofItem]
    refine readNumber_sound (by decide) rejects.2 fun fine => ?_
    have fine : ¬m.Rejects env (.fetch move) := fun bad => fine (rejects.1 bad)
    split
    next => exact fail_sound (by decide) fine
    next =>
    split
    next => exact fail_sound (by decide) fine
    next => exact running_sound h fine

theorem unary_sound (f : Unary) (h : m.At p) :
    (m.unary env f).Sound env p (m.Rejects env (.unary f)) := by
  rcases items : m.stack with _ | ⟨a, rest⟩ <;> simp only [unary, items]
  · exact fail_sound (by decide) (by simp [Rejects, operands, items])
  · have rejects : m.Rejects env (.unary f) ↔
        Operand.IsRejected env.flags ⟨a, Limit.number⟩ := by
      simp [Rejects, operands, items, Operand.ofItem]
    refine readNumber_sound (by decide) rejects.2 fun fine => ?_
    rw [f.signed64_apply (natAbs_value_lt_of_accepted fine)]
    exact running_sound h (fine ∘ rejects.1)

theorem binary_sound (f : Binary) (verify : Bool) (h : m.At p) :
    (m.binary env f verify).Sound env p (m.Rejects env (.binary f verify)) := by
  rcases items : m.stack with _ | ⟨b, _ | ⟨a, rest⟩⟩ <;> simp only [binary, items]
  · exact fail_sound (by decide) (by simp [Rejects, operands, items])
  · exact fail_sound (by decide) (by simp [Rejects, operands, items])
  · have rejects : m.Rejects env (.binary f verify) ↔
        Operand.IsRejected env.flags ⟨a, Limit.number⟩ ∨
          Operand.IsRejected env.flags ⟨b, Limit.number⟩ := by
      simp [Rejects, operands, items, Operand.ofItem]
    refine readNumber_sound (by decide) (rejects.2 ∘ .inl) fun fineA => ?_
    refine readNumber_sound (by decide) (rejects.2 ∘ .inr) fun fineB => ?_
    have fine : ¬m.Rejects env (.binary f verify) := fun bad => (rejects.1 bad).elim fineA fineB
    -- neither operand is longer than four bytes, so the result is a word
    rw [f.signed64_apply (natAbs_value_lt_of_accepted fineA) (natAbs_value_lt_of_accepted fineB)]
    dsimp only
    split
    next =>
      refine conclude_sound h fine ?_
      rintro _ ⟨⟩
      decide
    next => exact running_sound h fine

theorem within_sound (h : m.At p) : (m.within env).Sound env p (m.Rejects env .within) := by
  rcases items : m.stack with _ | ⟨high, _ | ⟨low, _ | ⟨x, rest⟩⟩⟩ <;>
    simp only [within, items]
  · exact fail_sound (by decide) (by simp [Rejects, operands, items])
  · exact fail_sound (by decide) (by simp [Rejects, operands, items])
  · exact fail_sound (by decide) (by simp [Rejects, operands, items])
  · have rejects : m.Rejects env .within ↔
        Operand.IsRejected env.flags ⟨x, Limit.number⟩ ∨
          Operand.IsRejected env.flags ⟨low, Limit.number⟩ ∨
          Operand.IsRejected env.flags ⟨high, Limit.number⟩ := by
      simp [Rejects, operands, items, Operand.ofItem]
    refine readNumber_sound (by decide) (rejects.2 ∘ .inl) fun fineX => ?_
    refine readNumber_sound (by decide) (rejects.2 ∘ .inr ∘ .inl) fun fineLow => ?_
    refine readNumber_sound (by decide) (rejects.2 ∘ .inr ∘ .inr) fun fineHigh => ?_
    refine conclude_sound h (fun bad => ?_) nofun
    exact (rejects.1 bad).elim fineX (Or.elim · fineLow fineHigh)

/-! ### Signatures -/

/-- Where the signed part starts inside the script, there is one. -/
theorem signedCode_of_inside (inside : m.codeStart ≤ env.script.length) (sigs : List Bytes) :
    ∃ code, m.signedCode env sigs = .ok code := by
  rw [signedCode, if_neg (Nat.not_lt.2 inside)]
  rcases env.version with _ | _
  · exact ⟨_, rfl⟩
  · exact ⟨_, rfl⟩

/-- The signed code is found, as the code starts inside the script. -/
theorem signedCode_answers {sigs : List Bytes} (h : m.At p) (inside : p ≤ env.script.length) :
    ∃ code, m.signedCode env sigs = .ok code :=
  signedCode_of_inside (h.2.1.trans inside) sigs

theorem checkSig_sound {verify : Bool} (h : m.At p) (inside : p ≤ env.script.length)
    (fine : ¬rejected) : (m.checkSig env verify).Sound env p rejected := by
  rcases items : m.stack with _ | ⟨key, _ | ⟨sig, rest⟩⟩ <;> simp only [checkSig, items]
  · exact fail_sound (by decide) fine
  · exact fail_sound (by decide) fine
  · obtain ⟨code, hcode⟩ : ∃ code, m.signedCode env [sig] = .ok code :=
      signedCode_answers h inside
    simp only [hcode]
    rcases forms : env.flags.checkForms env.version sig key with stop | _
    · obtain ⟨e, rfl, named⟩ := Flags.checkForms_error forms
      exact fail_sound named fine
    · rcases reply : env.checker.respond m.journal.calls (.signature sig key code env.version) with
        _ | _ | text <;> simp only [Journal.ask, reply]
      · exact conclude_sound h fine (whenVerified_names (by decide))
      · split
        next => exact fail_sound (by decide) fine
        next => exact conclude_sound h fine (whenVerified_names (by decide))
      · exact crash_sound reply

/-- A multi-signature check that ends on the way refuses a signature or a key, or the checker
broke down. -/
theorem matchKeys_error {code : Bytes} {sigs keys : List Bytes} {journal : Journal} {stop : Stop}
    (fine : ¬rejected) (h : (matchKeys env code sigs keys journal).1 = .error stop) :
    stop.IsExplained env.checker rejected := by
  fun_induction matchKeys env code sigs keys journal with
  | case1 => cases h
  | case2 => cases h
  | case3 sig sigs key keys journal stop' refused =>
    obtain rfl := Except.error.inj h
    obtain ⟨e, rfl, named⟩ := Flags.checkForms_error refused
    exact ⟨named.1, iff_of_false named.2 fine⟩
  | case4 sig sigs key keys journal allowed text after asked =>
    obtain rfl := Except.error.inj h
    exact ⟨_, _, text, congrArg Prod.fst asked, rfl⟩
  | case5 => cases h
  | case6 sig sigs key keys journal allowed after asked more ih => exact ih h
  | case7 => cases h
  | case8 sig sigs key keys journal allowed after asked more ih => exact ih h

theorem settleMultiSig_sound {verify success : Bool} {taken : Nat} {sigs : List Bytes} (h : m.At p)
    (fine : ¬rejected) :
    (m.settleMultiSig env verify taken sigs success).Sound env p rejected := by
  rw [settleMultiSig]
  split
  next => exact fail_sound (by decide) fine
  next =>
    rcases left : m.stack.drop taken with _ | ⟨dummy, rest⟩ <;> simp only
    · exact fail_sound (by decide) fine
    · split
      next => exact fail_sound (by decide) fine
      next => exact conclude_sound h fine (whenVerified_names (by decide))

/-- A count is refused like any number, and then compared with its bound. -/
theorem readCount_of_rejected {bound : Nat} {item : Bytes}
    (bad : Operand.IsRejected env.flags ⟨item, Limit.number⟩) :
    readCount env bound item = .error (.failed .unknownError) := by
  rw [readCount, Flags.readNumber_of_rejected bad]

theorem readCount_of_accepted {bound : Nat} {item : Bytes}
    (fine : ¬Operand.IsRejected env.flags ⟨item, Limit.number⟩) :
    ∃ count, readCount env bound item = .ok count := by
  rw [readCount, Flags.readNumber_of_accepted (by decide) fine]
  exact ⟨_, rfl⟩

theorem readCount_le {bound k : Nat} {item : Bytes} (h : readCount env bound item = .ok (some k)) :
    k ≤ bound := by
  simp only [readCount] at h
  split at h
  next => cases h
  next n _ =>
    split at h
    next => cases h
    next inRange =>
      obtain rfl : _ = k := Option.some.inj (Except.ok.inj h)
      omega

/-- The check of several signatures rejects one of its two counts or nothing. -/
theorem checkMultiSig_sound {verify : Bool} (h : m.At p) (inside : p ≤ env.script.length) :
    (m.checkMultiSig env verify).Sound env p (m.Rejects env (.checkMultiSig verify)) := by
  rcases items : m.stack with _ | ⟨keyCount, belowCount⟩ <;> simp only [checkMultiSig, items]
  · exact fail_sound (by decide) (by simp [Rejects, operands, items])
  have rejects : m.Rejects env (.checkMultiSig verify) ↔
      ∃ o ∈ m.countsRead env keyCount belowCount, o.IsRejected env.flags := by
    simp [Rejects, operands, items]
  by_cases badKeys : Operand.IsRejected env.flags ⟨keyCount, Limit.number⟩
  · rw [readCount_of_rejected badKeys]
    exact halt_sound (rejects.2 ⟨_, List.mem_cons_self, badKeys⟩)
  -- the number of keys is accepted, so that only the number of signatures is left to reject
  have rest : m.Rejects env (.checkMultiSig verify) ↔
      ∃ o ∈ (m.countsRead env keyCount belowCount).tail, o.IsRejected env.flags := by
    rw [rejects, countsRead, List.exists_mem_cons_iff]
    exact or_iff_right badKeys
  obtain ⟨keys, hkeys⟩ := @readCount_of_accepted _ Limit.keys _ badKeys
  rw [countsRead, List.tail_cons, hkeys] at rest
  rw [hkeys]
  rcases keys with _ | k
  · exact fail_sound (by decide) (by simp [rest])
  have most : k ≤ Limit.keys := readCount_le hkeys
  dsimp only at rest ⊢
  by_cases many : Limit.operations < m.opCount + k
  · rw [if_pos many] at rest ⊢
    exact fail_sound (by decide) (by simp [rest])
  rw [if_neg many] at rest ⊢
  have h' : ({ m with opCount := m.opCount + k } : Machine).At p :=
    ⟨h.1, h.2.1, Nat.le_of_not_lt many⟩
  rcases left : belowCount.drop k with _ | ⟨sigCount, belowKeys⟩
  · rw [left] at rest
    exact fail_sound (by decide) (by simp [rest])
  have last : m.Rejects env (.checkMultiSig verify) ↔
      Operand.IsRejected env.flags ⟨sigCount, Limit.number⟩ := by
    simp [rest, left, Operand.ofItem]
  dsimp only
  by_cases badSigs : Operand.IsRejected env.flags ⟨sigCount, Limit.number⟩
  · rw [readCount_of_rejected badSigs]
    exact halt_sound (last.2 badSigs)
  have fine : ¬m.Rejects env (.checkMultiSig verify) := badSigs ∘ last.1
  obtain ⟨sigs, hsigs⟩ := @readCount_of_accepted _ k _ badSigs
  rw [hsigs]
  rcases sigs with _ | s
  · exact fail_sound (by decide) fine
  dsimp only
  split
  next => exact fail_sound (by decide) fine
  next =>
  obtain ⟨code, hcode⟩ : ∃ code,
      ({ m with stack := keyCount :: belowCount, opCount := m.opCount + k } :
        Machine).signedCode env (belowKeys.take s) = .ok code := signedCode_answers h' inside
  rw [hcode]
  dsimp only
  rcases matched : matchKeys env code (belowKeys.take s) (belowCount.take k) m.journal with
    ⟨stop | success, journal⟩
  · exact matchKeys_error fine (congrArg Prod.fst matched)
  · exact settleMultiSig_sound h' fine

/-! ## Operations -/

/-- **What an operation comes to.** It keeps the invariant and rejected no operand, or its
error is one of its own, or it is `unknownError` and an operand was rejected, or the
checker broke down. -/
theorem perform_sound (op : Operation) (h : m.At p) (inside : p ≤ env.script.length) :
    (m.perform env op).Sound env p (m.Rejects env op) := by
  -- an operation that reads no number cannot have rejected one
  have calm : m.operands env op = [] → ¬m.Rejects env op := fun none => by simp [Rejects, none]
  cases op <;> simp only [perform]
  case number n => exact running_sound h (calm rfl)
  case nop => exact running_sound h (calm rfl)
  case reservedNop => exact reserved_sound h (calm rfl)
  -- a number is read only where the flag asks for the check
  case checkLockTime =>
    split
    next asked => exact checkLockTime_sound h (by rw [Rejects, operands, if_pos asked])
    next ignored => exact reserved_sound h (calm (if_neg ignored))
  case checkSequence =>
    split
    next asked => exact checkSequence_sound h (by rw [Rejects, operands, if_pos asked])
    next ignored => exact reserved_sound h (calm (if_neg ignored))
  case checkColdStake =>
    split
    next => exact checkColdStake_sound h (calm rfl)
    next => exact reserved_sound h (calm rfl)
  case openBranch inverted => exact openBranch_sound h (calm rfl)
  case switchBranch => exact switchBranch_sound h (calm rfl)
  case closeBranch => exact closeBranch_sound h (calm rfl)
  case forbidden => exact fail_sound (by decide) (calm rfl)
  -- these end with an error of their own where items are missing
  case verify =>
    rcases m.stack with _ | ⟨top, rest⟩
    · exact fail_sound (by decide) (calm rfl)
    · dsimp only
      split
      next => exact running_sound h (calm rfl)
      next => exact fail_sound (by decide) (calm rfl)
  case abort => exact fail_sound (by decide) (calm rfl)
  case toAlt =>
    rcases m.stack with _ | ⟨top, rest⟩
    · exact fail_sound (by decide) (calm rfl)
    · exact running_sound h (calm rfl)
  case fromAlt =>
    rcases m.alt with _ | ⟨top, rest⟩
    · exact fail_sound (by decide) (calm rfl)
    · exact running_sound h (calm rfl)
  case arrange a =>
    rcases a.apply m.stack with _ | stack
    · exact fail_sound (by decide) (calm rfl)
    · exact running_sound h (calm rfl)
  case fetch move => exact fetch_sound move h
  case equal verify =>
    rcases m.stack with _ | ⟨b, _ | ⟨a, rest⟩⟩
    · exact fail_sound (by decide) (calm rfl)
    · exact fail_sound (by decide) (calm rfl)
    · exact conclude_sound h (calm rfl) (whenVerified_names (by decide))
  case unary f => exact unary_sound f h
  case binary f verify => exact binary_sound f verify h
  case within => exact within_sound h
  case hash f =>
    rcases m.stack with _ | ⟨top, rest⟩
    · exact fail_sound (by decide) (calm rfl)
    · exact running_sound h (calm rfl)
  -- the signed part now starts where the machine stands, which is inside of the script
  case codeSeparator => exact running_sound ⟨h.1, h.1.le, h.2.2⟩ (calm rfl)
  case checkSig verify => exact checkSig_sound h inside (calm rfl)
  case checkMultiSig verify => exact checkMultiSig_sound h inside
  case invalid => exact fail_sound (by decide) (calm rfl)

/-! ## Steps and runs -/

/-- The step at an instruction rejects a number: the instruction passes the checks that come
first, pushes no data and is not skipped, and its operation rejects one. -/
def RejectsAt (env : Env) (m : Machine) (i : Instruction) : Prop :=
  i.data = none ∧ (i.isPush = true ∨ (m.count i).opCount ≤ Limit.operations) ∧
    Opcode.isDisabled i.opcode = false ∧
    (m.executing || (Operation.ofOpcode i.opcode).runsWhenSkipped) = true ∧
    (m.count i).Rejects env (.ofOpcode i.opcode)

instance (env : Env) (m : Machine) (i : Instruction) : Decidable (m.RejectsAt env i) :=
  inferInstanceAs (Decidable (_ ∧ _))

theorem checkStackSize_sound {o : Outcome} (h : o.Sound env p rejected) :
    (checkStackSize o).Sound env p rejected := by
  rcases o with m | ⟨stop, m⟩
  · rw [checkStackSize]
    split
    next => exact fail_sound (by decide) h.2
    next => exact h
  · exact h

/-- Executing an instruction is sound, where `count` has taken it into account. -/
theorem execute_sound {i : Instruction} (h : m.At p) (inside : p ≤ env.script.length)
    (rejects : rejected ↔ i.data = none ∧
      (m.executing || (Operation.ofOpcode i.opcode).runsWhenSkipped) = true ∧
      m.Rejects env (.ofOpcode i.opcode)) :
    (m.execute env i).Sound env p rejected := by
  rcases data : i.data with _ | data <;> simp only [execute, data]
  · split
    next active =>
      have same : rejected ↔ m.Rejects env (.ofOpcode i.opcode) := by simp [rejects, data, active]
      rw [same]
      exact perform_sound _ h inside
    next skipped => exact running_sound h (by simp [rejects, skipped])
  · have fine : ¬rejected := by simp [rejects, data]
    split
    next =>
      split
      next => exact fail_sound (by decide) fine
      next => exact running_sound h fine
    next => exact running_sound h fine

/-- What the check of the number of operations lets pass. -/
theorem isPush_or_opCount_le {i : Instruction}
    (few : ¬(!i.isPush && decide (Limit.operations < (m.count i).opCount)) = true) :
    i.isPush = true ∨ (m.count i).opCount ≤ Limit.operations := by
  rw [Bool.and_eq_true, Bool.not_eq_true', decide_eq_true_iff, not_and, Nat.not_lt] at few
  by_cases push : i.isPush = true
  · exact .inl push
  · exact .inr (few (Bool.eq_false_iff.2 push))

/-- An instruction is counted, and the invariant holds behind it unless there are too many. -/
theorem count_at {i : Instruction} (h : m.At p)
    (few : i.isPush = true ∨ (m.count i).opCount ≤ Limit.operations) :
    (m.count i).At (p + i.bytes.length) := by
  refine ⟨congrArg (· + i.bytes.length) h.1, h.2.1.trans (Nat.le_add_right ..), ?_⟩
  rcases few with push | few
  · simp only [count, push, if_true]
    exact h.2.2
  · exact few

/-- **What a step comes to**: the invariant moves on by the bytes of the instruction. -/
theorem step_sound {i : Instruction} (h : m.At p)
    (inside : p + i.bytes.length ≤ env.script.length) :
    (m.step env i).Sound env (p + i.bytes.length) (m.RejectsAt env i) := by
  simp only [step]
  split
  next big =>
    refine fail_sound (by decide) fun bad => ?_
    rw [bad.1] at big
    cases big
  next =>
  split
  next many =>
    rw [Bool.and_eq_true, Bool.not_eq_true', decide_eq_true_iff] at many
    refine fail_sound (by decide) fun bad => ?_
    exact bad.2.1.elim (by simp [many.1]) (Nat.not_le_of_lt many.2)
  next few =>
  have few := isPush_or_opCount_le few
  split
  next disabled => exact fail_sound (by decide) fun bad => by simp [bad.2.2.1] at disabled
  next enabled =>
    refine checkStackSize_sound (execute_sound (count_at h few) inside ?_)
    rw [RejectsAt, and_iff_right few, Bool.eq_false_iff, and_iff_right enabled]
    rfl

/-- A run rejects a number at one of its instructions. -/
def RejectsIn (env : Env) (is : List Instruction) (m : Machine) : Prop :=
  ∃ before i behind m', is = before ++ i :: behind ∧ run env before m = .running m' ∧
    m'.RejectsAt env i

/-- A run rejects a number at its first instruction or later on. -/
theorem rejectsIn_cons {i : Instruction} {is : List Instruction} :
    RejectsIn env (i :: is) m ↔
      m.RejectsAt env i ∨ ∃ m', m.step env i = .running m' ∧ RejectsIn env is m' := by
  refine ⟨?_, ?_⟩
  · rintro ⟨_ | ⟨j, before⟩, k, behind, m', split, ran, bad⟩
    · obtain ⟨rfl, rfl⟩ := List.cons.inj split
      obtain rfl := Outcome.running.inj ran
      exact .inl bad
    · obtain ⟨rfl, rfl⟩ := List.cons.inj split
      rcases first : m.step env i with m'' | ⟨stop, m''⟩
      · simp only [run, first] at ran
        exact .inr ⟨m'', rfl, before, k, behind, m', rfl, ran, bad⟩
      · simp only [run, first] at ran
        cases ran
  · rintro (bad | ⟨m'', first, before, k, behind, m', rfl, ran, bad⟩)
    · exact ⟨[], i, is, m, rfl, rfl, bad⟩
    · refine ⟨i :: before, k, behind, m', rfl, ?_, bad⟩
      simp only [run, first]
      exact ran

/-- **What a run comes to.** By induction on the instructions: each step hands the invariant
on to the next one, and the first step that does not run on explains the stop. -/
theorem run_sound {is : List Instruction} (h : m.At p)
    (inside : p + (Script.bytes is).length ≤ env.script.length) :
    (run env is m).Sound env (p + (Script.bytes is).length) (RejectsIn env is m) := by
  induction is generalizing m p with
  | nil =>
    refine running_sound h ?_
    rintro ⟨before, i, behind, m', split, -⟩
    exact List.append_ne_nil_of_right_ne_nil before (List.cons_ne_nil i behind) split.symm
  | cons i is ih =>
    have size : p + (Script.bytes (i :: is)).length =
        p + i.bytes.length + (Script.bytes is).length := by
      simp only [Script.bytes, List.flatMap_cons, List.length_append]
      omega
    rw [size] at inside ⊢
    have first : (m.step env i).Sound env _ (m.RejectsAt env i) := step_sound h (by omega)
    rcases outcome : m.step env i with m' | ⟨stop, m'⟩
    · rw [outcome] at first
      -- a step that runs on rejects nothing: what the run rejects is rejected later
      have rest := ih first.1 inside
      have same : RejectsIn env (i :: is) m ↔ RejectsIn env is m' := by
        simp [rejectsIn_cons, outcome, first.2]
      simp only [run, outcome]
      rw [same]
      exact rest
    · rw [outcome] at first
      simp only [run, outcome]
      exact Stop.IsExplained.congr (by simp [rejectsIn_cons, outcome]) first

/-- Every evaluation starts with the invariant. -/
theorem start_at (stack : Stack Bytes) (journal : Journal) : ({ stack, journal } : Machine).At 0 :=
  ⟨rfl, Nat.le_refl 0, Nat.zero_le _⟩

/-- The tail that cannot be read ends a run with a rule of its own. -/
theorem finish_sound {tail : Bytes} {o : Outcome} (h : o.Sound env p rejected) :
    (finish tail o).Sound env p rejected := by
  rcases o with m | ⟨stop, m⟩ <;> simp only [finish]
  · split
    next => exact fail_sound (by decide) h.2
    next =>
    split
    next => exact fail_sound (by decide) h.2
    next => exact h
  · exact h

end Machine

namespace Script

variable {flags : Flags} {checker : Checker} {version : SigVersion} {script : Bytes}
  {stack : Stack Bytes} {journal : Journal}

/-- The evaluation of a script rejects a number: the script is not too long, and its run
from the given stack comes to an instruction that reads one. -/
def RejectsNumber (flags : Flags) (checker : Checker) (version : SigVersion) (script : Bytes)
    (stack : Stack Bytes) (journal : Journal) : Prop :=
  script.length ≤ Limit.scriptSize ∧
    Machine.RejectsIn ⟨flags, checker, version, script⟩ (instructions script) { stack, journal }

/-- The instructions of a script, from its start on, end inside of it. -/
theorem zero_add_length_instructions_le (script : Bytes) :
    0 + (bytes (instructions script)).length ≤ script.length := by
  conv_rhs => rw [← bytes_parse script, List.length_append]
  omega

/-- **What an evaluation comes to**, from any stack: it ends with the error of a broken rule,
or with `unknownError` because a number was rejected, or because the checker broke down. -/
theorem evaluate_sound :
    (evaluate flags checker version script stack journal).Sound
      ⟨flags, checker, version, script⟩
      (bytes (instructions script)).length
      (RejectsNumber flags checker version script stack journal) := by
  simp only [evaluate]
  split
  next long => exact Machine.fail_sound (by decide) fun bad => Nat.not_le_of_lt long bad.1
  next short =>
    have whole := @Machine.run_sound ⟨flags, checker, version, script⟩ _ _ _
      (Machine.start_at stack journal) (zero_add_length_instructions_le script)
    rw [Nat.zero_add] at whole
    have same : RejectsNumber flags checker version script stack journal ↔
        Machine.RejectsIn ⟨flags, checker, version, script⟩ (instructions script)
          { stack, journal } := and_iff_right (Nat.le_of_not_lt short)
    rw [same]
    exact Machine.finish_sound whole

end Script

end BlockRules
