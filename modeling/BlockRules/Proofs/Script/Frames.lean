import Mathlib
import BlockRules.Proofs.Script.Pushes

/-!
# What an operation leaves alone

Most operations work on the stacks and on nothing else. This module says once, for all of them, what
they can do to a machine, whether they run on or not, so that invariants need not go through the
operations again. The machine that an outcome leaves is `Outcome.machine`.

* `Machine.MayAsk` — the questions an operation may ask: about times, and about those signatures
  that it checks, over the code that it signs with them;
* `Machine.Supplies` — where the items come from that it leaves on the stacks;
* `Machine.Frame` — both of them; and that only a branch (`Operation.branches`) changes the open
  conditionals, only the code separator moves the start of the signed part, only the cold stake
  check sets the mark, and only a check of several signatures counts more operations than itself;
* `Machine.perform_frame` — every operation has this frame. The frames of its parts are put
  together from the changes that they make: taking items off, pushing one, asking a question.

The last section carries this over to steps: which questions are asked at an instruction
(`Machine.step_adds`), and what becomes of the conditionals and of the start
(`Machine.step_conditions`, `Machine.step_codeStart`).
-/

namespace BlockRules

/-- The machine that an outcome leaves, whether it runs on or not. -/
def Outcome.machine : Outcome → Machine
  | .running m => m
  | .halted _ m => m

/-- Opens, switches or closes a conditional. -/
def Operation.branches : Operation → Bool
  | .openBranch _ | .switchBranch | .closeBranch => true
  | _ => false

/-- An arrangement brings up no item but the number of the items, or of the bytes of one of them. -/
theorem Arrange.mem_apply {a : Arrange} {s s' : Stack Bytes} {item : Bytes}
    (applied : a.apply s = some s') (mem : item ∈ s') :
    item ∈ s ∨ a = .depth ∧ item = ScriptNum.encode s.length ∨
      ∃ above ∈ s, item = ScriptNum.encode above.length := by
  fun_cases Arrange.apply a s <;>
    simp only [Arrange.apply, Option.some.injEq, reduceCtorEq] at applied
  all_goals grind

/-- To the questions of a journal only some of a certain kind have been added. -/
def Journal.Adds (asks : Query → Prop) (j j' : Journal) : Prop :=
  ∃ asked, j'.calls = j.calls ++ asked ∧ ∀ q ∈ asked, asks q

namespace Journal

variable {asks : Query → Prop} {j j' j'' : Journal}

theorem adds_of_eq (same : j'.calls = j.calls) : j.Adds asks j' :=
  ⟨[], by rw [same, List.append_nil], nofun⟩

/-- One query that may be asked is added. -/
theorem adds_of_ask {c : Checker} {q : Query} {reply : Reply} (asked : asks q)
    (answer : j.ask c q = (reply, j')) : j.Adds asks j' := by
  obtain ⟨-, rfl⟩ := Prod.mk.inj answer
  exact ⟨[q], rfl, List.forall_mem_singleton.2 asked⟩

/-- Asking leaves the mark alone. -/
theorem coldStake_of_ask {c : Checker} {q : Query} {reply : Reply}
    (answer : j.ask c q = (reply, j')) :
    j'.coldStake = j.coldStake := by
  obtain ⟨-, rfl⟩ := Prod.mk.inj answer
  rfl

theorem Adds.trans (h : j.Adds asks j') (h' : j'.Adds asks j'') : j.Adds asks j'' := by
  obtain ⟨asked, calls, kind⟩ := h
  obtain ⟨asked', calls', kind'⟩ := h'
  refine ⟨asked ++ asked', by rw [calls', calls, List.append_assoc], ?_⟩
  exact List.forall_mem_append.2 ⟨kind, kind'⟩

end Journal

namespace Machine

/-- The signatures that an operation checks. -/
def signatures (env : Env) (m : Machine) : Operation → List Bytes
  | .checkSig _ => (m.stack.drop 1).take 1
  | .checkMultiSig _ =>
    match m.stack with
    | [] => []
    | keyCount :: belowCount =>
      match readCount env Limit.keys keyCount with
      | .ok (some k) =>
        match belowCount.drop k with
        | [] => []
        | sigCount :: belowKeys =>
          match readCount env k sigCount with
          | .ok (some s) => belowKeys.take s
          | _ => []
      | _ => []
  | _ => []

/-- The questions that an operation may ask: about times, and about the signatures it checks, over
the code that is signed with them. -/
def MayAsk (env : Env) (m : Machine) (op : Operation) : Query → Prop
  | .signature sig _ code version =>
    sig ∈ m.signatures env op ∧ m.signedCode env (m.signatures env op) = .ok code ∧
      version = env.version
  | .lockTime _ | .sequence _ => True

/-- Where an item comes from that an operation leaves on a stack. Most have been there before. -/
inductive Supplies (m : Machine) (op : Operation) : Bytes → Prop
  | main {item : Bytes} : item ∈ m.stack → Supplies m op item
  | alt {item : Bytes} : item ∈ m.alt → Supplies m op item
  | truth (holds : Bool) : Supplies m op (boolItem holds)
  | number {n : Int} : op = .number n → Supplies m op (ScriptNum.encode n)
  /-- the result of a calculation -/
  | word {n v : Int} : signed64 n = .ok v → Supplies m op (ScriptNum.encode v)
  | hash (f : HashOp) (item : Bytes) : Supplies m op (f.apply item)
  | depth : op = .arrange .depth → Supplies m op (ScriptNum.encode m.stack.length)
  | size {item : Bytes} : item ∈ m.stack → Supplies m op (ScriptNum.encode item.length)

/-- What an operation can do to a machine. -/
structure Frame (env : Env) (op : Operation) (m m' : Machine) : Prop where
  conditions : op.branches = false → m'.conditions = m.conditions
  codeStart : op ≠ .codeSeparator → m'.codeStart = m.codeStart
  asked : m.journal.Adds (m.MayAsk env op) m'.journal
  mark : op ≠ .checkColdStake → m'.journal.coldStake = m.journal.coldStake
  opCount : (∀ verify, op ≠ .checkMultiSig verify) → m'.opCount = m.opCount
  stack : ∀ item ∈ m'.stack, m.Supplies op item
  alt : ∀ item ∈ m'.alt, m.Supplies op item

variable {env : Env} {m m' : Machine} {op : Operation}

/-! ## Single changes -/

namespace Frame

theorem refl : m.Frame env op m where
  conditions _ := rfl
  codeStart _ := rfl
  asked := Journal.adds_of_eq rfl
  mark _ := rfl
  opCount _ := rfl
  stack _ := .main
  alt _ := .alt

/-- Items are taken off the stack, or moved on it. -/
theorem take (h : m.Frame env op m') {items : Stack Bytes} (sub : items ⊆ m'.stack) :
    m.Frame env op { m' with stack := items } :=
  { h with stack := fun item mem => h.stack item (sub mem) }

/-- Pushing an item that the operation supplies stays within the frame. -/
theorem push (h : m.Frame env op m') {item : Bytes} (made : m.Supplies op item) :
    m.Frame env op (m'.push item) :=
  { h with stack := List.forall_mem_cons.2 ⟨made, h.stack⟩ }

/-- The keys of a multi-signature check are counted. -/
theorem count {verify : Bool} (h : m.Frame env (.checkMultiSig verify) m') (opCount : Nat) :
    m.Frame env (.checkMultiSig verify) { m' with opCount } :=
  { h with opCount := fun other => absurd rfl (other verify) }

theorem adds (h : m.Frame env op m') {journal : Journal}
    (asked : m'.journal.Adds (m.MayAsk env op) journal)
    (mark : journal.coldStake = m'.journal.coldStake) : m.Frame env op { m' with journal } :=
  { h with asked := h.asked.trans asked, mark := fun other => mark.trans (h.mark other) }

/-- A question is asked that may be asked. -/
theorem ask (h : m.Frame env op m') {q : Query} {reply : Reply} {journal : Journal}
    (asked : m.MayAsk env op q) (answer : m'.journal.ask env.checker q = (reply, journal)) :
    m.Frame env op { m' with journal } :=
  h.adds (Journal.adds_of_ask asked answer) (Journal.coldStake_of_ask answer)

/-- A truth value is left, or checked. -/
theorem conclude (h : m.Frame env op m') {ifFalse : Option ScriptError} {holds : Bool} :
    m.Frame env op (m'.conclude ifFalse holds).machine := by
  rcases ifFalse with _ | e
  · exact h.push (.truth holds)
  · cases holds with
    | false => exact h.push (.truth false)
    | true => exact h

end Frame

/-! ## Single operations -/

theorem reserved_frame : m.Frame env op (m.reserved env).machine := by
  rw [reserved]
  split <;> exact .refl

/-- Asking about a time writes to the journal and to nothing else. -/
theorem askTime_frame {q : Query} (asked : m.MayAsk env op q) :
    m.Frame env op (m.askTime env q).machine := by
  rw [askTime]
  rcases answer : m.journal.ask env.checker q with ⟨_ | _ | text, journal⟩ <;>
    exact Frame.refl.ask asked answer

/-- An operation that reads a number: what is left to show is what it does with it. -/
theorem readNumber_frame {limit : Nat} {item : Bytes} {next : Int → Outcome}
    (h : ∀ n, m.Frame env op (next n).machine) :
    m.Frame env op (match env.flags.readNumber limit item with
      | .error stop => m.halt stop
      | .ok n => next n).machine := by
  rcases env.flags.readNumber limit item with stop | n
  · exact .refl
  · exact h n

theorem checkLockTime_frame : m.Frame env op (m.checkLockTime env).machine := by
  rcases items : m.stack with _ | ⟨top, rest⟩ <;> simp only [checkLockTime, items]
  · exact .refl
  · refine readNumber_frame fun n => ?_
    split
    next => exact .refl
    next => exact askTime_frame trivial

theorem checkSequence_frame : m.Frame env op (m.checkSequence env).machine := by
  rcases items : m.stack with _ | ⟨top, rest⟩ <;> simp only [checkSequence, items]
  · exact .refl
  · refine readNumber_frame fun n => ?_
    split
    next => exact .refl
    next =>
      split
      next => exact .refl
      next => exact askTime_frame trivial

/-- Only this check may set the mark. -/
theorem checkColdStake_frame : m.Frame env .checkColdStake (m.checkColdStake env).machine := by
  rw [checkColdStake]
  split
  next =>
    split
    next =>
      exact { (Frame.refl : m.Frame env .checkColdStake m) with
        asked := Journal.adds_of_eq rfl
        mark := fun other => absurd rfl other }
    next => exact .refl
  next => exact .refl

/-- Opening a branch takes one item and adds one condition. -/
theorem openBranch_frame (inverted : Bool) :
    m.Frame env (.openBranch inverted) (m.openBranch env inverted).machine := by
  rw [openBranch]
  split
  next =>
    rcases items : m.stack with _ | ⟨top, rest⟩ <;> dsimp only
    · exact .refl
    · split
      next => exact .refl
      next =>
        have left : rest ⊆ m.stack := by simp [items]
        exact { (Frame.refl.take left : m.Frame env (.openBranch inverted) _) with
          conditions := nofun }
  next => exact { (Frame.refl : m.Frame env (.openBranch inverted) m) with conditions := nofun }

/-- What is fetched was on the stack before. -/
theorem fetch_frame (move : Bool) : m.Frame env op (m.fetch env move).machine := by
  rcases items : m.stack with _ | ⟨top, _ | ⟨next, rest⟩⟩ <;> simp only [fetch, items]
  · exact .refl
  · exact .refl
  · have below : next :: rest ⊆ m.stack := by simp [items]
    refine readNumber_frame fun n => ?_
    split
    next => exact Frame.refl.take below
    next =>
      rcases there : (next :: rest)[(ScriptNum.clamp32 n).toNat]? with _ | item <;> dsimp only
      · exact Frame.refl.take below
      · refine Frame.refl.take (List.cons_subset.2 ⟨below (List.mem_of_getElem? there), ?_⟩)
        split
        next => exact List.Subset.trans List.eraseIdx_subset below
        next => exact below

theorem unary_frame (f : Unary) : m.Frame env op (m.unary env f).machine := by
  rcases items : m.stack with _ | ⟨a, rest⟩ <;> simp only [unary, items]
  · exact .refl
  · have below : rest ⊆ m.stack := by simp [items]
    refine readNumber_frame fun n => ?_
    rcases word : signed64 (f.apply n) with fault | v
    · exact .refl
    · exact (Frame.refl.take below).push (.word word)

/-- A binary operation supplies a number it calculates, or nothing if it verifies. -/
theorem binary_frame (f : Binary) (verify : Bool) :
    m.Frame env op (m.binary env f verify).machine := by
  rcases items : m.stack with _ | ⟨b, _ | ⟨a, rest⟩⟩ <;> simp only [binary, items]
  · exact .refl
  · exact .refl
  · have below : rest ⊆ m.stack := by simp [items]
    refine readNumber_frame fun first => readNumber_frame fun second => ?_
    rcases word : signed64 (f.apply first second) with fault | v <;> dsimp only
    · exact .refl
    · split
      next => exact (Frame.refl.take below).conclude
      next => exact (Frame.refl.take below).push (.word word)

theorem within_frame : m.Frame env op (m.within env).machine := by
  rcases items : m.stack with _ | ⟨high, _ | ⟨low, _ | ⟨x, rest⟩⟩⟩ <;>
    simp only [within, items]
  · exact .refl
  · exact .refl
  · exact .refl
  · have below : rest ⊆ m.stack := by
      rw [items]
      exact List.drop_subset 3 (high :: low :: x :: rest)
    refine readNumber_frame fun _ => readNumber_frame fun _ => readNumber_frame fun _ => ?_
    exact (Frame.refl.take below).conclude

/-! ### Signatures -/

/-- A signature check asks one query and supplies a truth value. -/
theorem checkSig_frame (verify : Bool) :
    m.Frame env (.checkSig verify) (m.checkSig env verify).machine := by
  rcases items : m.stack with _ | ⟨key, _ | ⟨sig, rest⟩⟩ <;> simp only [checkSig, items]
  · exact .refl
  · exact .refl
  have whole : key :: sig :: rest ⊆ m.stack := by simp [items]
  have below : rest ⊆ m.stack := by simp [items]
  have own : m.signatures env (.checkSig verify) = [sig] := by simp [signatures, items]
  rcases signed : m.signedCode env [sig] with fault | code <;> dsimp only
  · exact .refl
  rcases env.flags.checkForms env.version sig key with stop | _ <;> dsimp only
  · exact .refl
  have about : m.MayAsk env (.checkSig verify) (.signature sig key code env.version) := by
    rw [MayAsk, own]
    exact ⟨List.mem_singleton_self sig, signed, rfl⟩
  rcases answer : m.journal.ask env.checker (.signature sig key code env.version) with
    ⟨_ | _ | text, journal⟩ <;> dsimp only
  · exact ((Frame.refl.take below).ask about answer).conclude
  · split
    next => exact (Frame.refl.take whole).ask about answer
    next => exact ((Frame.refl.take below).ask about answer).conclude
  · exact (Frame.refl.take whole).ask about answer

/-- Matching keys asks about signatures of the list, over one code. -/
theorem matchKeys_adds {asks : Query → Prop} {code : Bytes} {sigs keys : List Bytes}
    {journal : Journal}
    (about : ∀ sig ∈ sigs, ∀ key, asks (.signature sig key code env.version)) :
    journal.Adds asks (matchKeys env code sigs keys journal).2 := by
  fun_induction matchKeys env code sigs keys journal with
  | case1 => exact Journal.adds_of_eq rfl
  | case2 => exact Journal.adds_of_eq rfl
  | case3 => exact Journal.adds_of_eq rfl
  | case4 sig sigs key keys before allowed text after answer =>
    exact Journal.adds_of_ask (about sig List.mem_cons_self key) answer
  | case5 sig sigs key keys before allowed after answer few =>
    exact Journal.adds_of_ask (about sig List.mem_cons_self key) answer
  | case6 sig sigs key keys before allowed after answer enough ih =>
    exact (Journal.adds_of_ask (about sig List.mem_cons_self key) answer).trans
      (ih fun sig' mem => about sig' (List.mem_cons_of_mem sig mem))
  | case7 sig sigs key keys before allowed after answer few =>
    exact Journal.adds_of_ask (about sig List.mem_cons_self key) answer
  | case8 sig sigs key keys before allowed after answer enough ih =>
    exact (Journal.adds_of_ask (about sig List.mem_cons_self key) answer).trans (ih about)

/-- Matching signatures with keys never sets the mark. -/
theorem matchKeys_coldStake {code : Bytes} {sigs keys : List Bytes} {journal : Journal} :
    (matchKeys env code sigs keys journal).2.coldStake = journal.coldStake := by
  fun_induction matchKeys env code sigs keys journal with
  | case1 => rfl
  | case2 => rfl
  | case3 => rfl
  | case4 _ _ _ _ _ _ _ _ answer => exact Journal.coldStake_of_ask answer
  | case5 _ _ _ _ _ _ _ answer _ => exact Journal.coldStake_of_ask answer
  | case6 _ _ _ _ _ _ _ answer _ ih => exact ih.trans (Journal.coldStake_of_ask answer)
  | case7 _ _ _ _ _ _ _ answer _ => exact Journal.coldStake_of_ask answer
  | case8 _ _ _ _ _ _ _ answer _ ih => exact ih.trans (Journal.coldStake_of_ask answer)

/-- Settling takes items away and supplies a truth value at most. -/
theorem Frame.settleMultiSig (h : m.Frame env op m') {verify success : Bool} {taken : Nat}
    {sigs : List Bytes} :
    m.Frame env op (settleMultiSig env verify taken sigs success m').machine := by
  rw [Machine.settleMultiSig]
  split
  next => exact h.take (List.drop_subset ..)
  next =>
  rcases items : m'.stack.drop taken with _ | ⟨dummy, rest⟩ <;> dsimp only
  · exact h.take (List.nil_subset _)
  · have left : dummy :: rest ⊆ m'.stack := items ▸ List.drop_subset taken m'.stack
    split
    next => exact h.take left
    next => exact (h.take (List.cons_subset.1 left).2).conclude

/-- The check of several signatures asks signature queries only and supplies a truth value. -/
theorem checkMultiSig_frame (verify : Bool) :
    m.Frame env (.checkMultiSig verify) (m.checkMultiSig env verify).machine := by
  rcases items : m.stack with _ | ⟨keyCount, belowCount⟩ <;> simp only [checkMultiSig, items]
  · exact .refl
  rcases hkeys : readCount env Limit.keys keyCount with stop | _ | k <;> dsimp only
  · exact .refl
  · exact .refl
  have counted : m.Frame env (.checkMultiSig verify)
      { m with stack := keyCount :: belowCount, opCount := m.opCount + k } :=
    (Frame.refl.take (items ▸ List.Subset.refl _)).count _
  split
  next => exact counted
  rcases left : belowCount.drop k with _ | ⟨sigCount, belowKeys⟩ <;> dsimp only
  · exact counted
  rcases hsigs : readCount env k sigCount with stop | _ | s <;> dsimp only
  · exact counted
  · exact counted
  split
  next => exact counted
  -- the signatures that the machine finds are the ones that the operation is said to check
  have own : m.signatures env (.checkMultiSig verify) = belowKeys.take s := by
    simp only [signatures, items, hkeys, left, hsigs]
  rcases signed : ({ m with stack := keyCount :: belowCount, opCount := m.opCount + k } :
    Machine).signedCode env (belowKeys.take s) with fault | code <;> dsimp only
  · exact counted
  -- so each question is about one of them, and the signed part of this machine
  have about : ∀ sig ∈ belowKeys.take s, ∀ key,
      m.MayAsk env (.checkMultiSig verify) (.signature sig key code env.version) := by
    intro sig mem key
    rw [MayAsk, own]
    exact ⟨mem, signed, rfl⟩
  have adds := @matchKeys_adds env _ code (belowKeys.take s) (belowCount.take k) m.journal about
  have mark := @matchKeys_coldStake env code (belowKeys.take s) (belowCount.take k) m.journal
  rcases matched : matchKeys env code (belowKeys.take s) (belowCount.take k) m.journal with
    ⟨stop | success, journal⟩ <;> rw [matched] at adds mark <;> dsimp only
  · exact counted.adds adds mark
  · exact (counted.adds adds mark).settleMultiSig

/-! ## Operations -/

/-- **What an operation can do.** Every operation has its frame. -/
theorem perform_frame (env : Env) (op : Operation) (m : Machine) :
    m.Frame env op (m.perform env op).machine := by
  cases op <;> simp only [perform]
  case number n => exact Frame.refl.push (.number rfl)
  case nop => exact .refl
  -- without their flag, the three later checks are reserved words
  case reservedNop => exact reserved_frame
  case checkLockTime =>
    split
    next => exact checkLockTime_frame
    next => exact reserved_frame
  case checkSequence =>
    split
    next => exact checkSequence_frame
    next => exact reserved_frame
  case checkColdStake =>
    split
    next => exact checkColdStake_frame
    next => exact reserved_frame
  case openBranch inverted => exact openBranch_frame inverted
  -- conditionals change the list of open branches, which the frame leaves to them alone
  case switchBranch =>
    rw [switchBranch]
    split
    next => exact .refl
    next => exact { (Frame.refl : m.Frame env .switchBranch m) with conditions := nofun }
  case closeBranch =>
    rw [closeBranch]
    split
    next => exact .refl
    next => exact { (Frame.refl : m.Frame env .closeBranch m) with conditions := nofun }
  case forbidden => exact .refl
  case verify =>
    rcases items : m.stack with _ | ⟨top, rest⟩ <;> dsimp only
    · exact .refl
    · split
      next => exact Frame.refl.take (by simp [items])
      next => exact .refl
  case abort => exact .refl
  -- an item that is moved has its origin on the other stack
  case toAlt =>
    rcases items : m.stack with _ | ⟨top, rest⟩ <;> dsimp only
    · exact .refl
    · have whole : top :: rest ⊆ m.stack := by simp [items]
      obtain ⟨moved, left⟩ := List.cons_subset.1 whole
      exact { (Frame.refl.take left : m.Frame env .toAlt _) with
        alt := List.forall_mem_cons.2 ⟨.main moved, fun _ => .alt⟩ }
  case fromAlt =>
    rcases items : m.alt with _ | ⟨top, rest⟩ <;> dsimp only
    · exact .refl
    · have whole : top :: rest ⊆ m.alt := by simp [items]
      obtain ⟨moved, left⟩ := List.cons_subset.1 whole
      exact { (Frame.refl.push (.alt moved) : m.Frame env .fromAlt _) with
        alt := fun _ mem => .alt (left mem) }
  -- what an arrangement leaves was there before, or counts the items, or measures the top one
  case arrange a =>
    rcases applied : a.apply m.stack with _ | items <;> dsimp only
    · exact .refl
    · refine { (Frame.refl : m.Frame env (.arrange a) m) with stack := fun item mem => ?_ }
      rcases Arrange.mem_apply applied mem with old | ⟨rfl, rfl⟩ | ⟨above, old, rfl⟩
      · exact .main old
      · exact .depth rfl
      · exact .size old
  case fetch move => exact fetch_frame move
  case equal verify =>
    split
    next b a rest items => exact (Frame.refl.take (by simp [items])).conclude
    next => exact .refl
  case unary f => exact unary_frame f
  case binary f verify => exact binary_frame f verify
  case within => exact within_frame
  case hash f =>
    rcases items : m.stack with _ | ⟨top, rest⟩ <;> dsimp only
    · exact .refl
    · have left : rest ⊆ m.stack := by simp [items]
      exact (Frame.refl.take left).push (.hash f top)
  -- the only operation that moves the start of the signed part
  case codeSeparator =>
    exact { (Frame.refl : m.Frame env .codeSeparator m) with
      codeStart := fun other => absurd rfl other }
  case checkSig verify => exact checkSig_frame verify
  case checkMultiSig verify => exact checkMultiSig_frame verify
  case invalid => exact .refl

/-- The signed part starts behind a code separator, and otherwise where it has started before. -/
theorem perform_codeStart (op : Operation) :
    (m.perform env op).machine.codeStart = if op = .codeSeparator then m.position
      else m.codeStart := by
  split
  next separates =>
    rw [separates]
    rfl
  next stays => exact (perform_frame env op m).codeStart stays

/-! ## Steps -/

variable {i : Instruction}

/-- The check of the stack size changes nothing. -/
theorem checkStackSize_machine (o : Outcome) : (checkStackSize o).machine = o.machine := by
  rcases o with m | ⟨stop, m⟩
  · rw [checkStackSize]
    split <;> rfl
  · rfl

/-- A step leaves the machine as it is when the instruction is counted, or as the instruction leaves
it from there. -/
theorem step_machine (env : Env) (i : Instruction) (m : Machine) :
    (m.step env i).machine = m.count i ∨
      (m.step env i).machine = ((m.count i).execute env i).machine := by
  rw [step]
  split
  next => exact .inl rfl
  next =>
    split
    next => exact .inl rfl
    next =>
      split
      next => exact .inl rfl
      next => exact .inr (checkStackSize_machine _)

/-- A step asks nothing but what the operation of its instruction may ask. -/
theorem step_adds (env : Env) (i : Instruction) (m : Machine) :
    m.journal.Adds (m.MayAsk env (.ofOpcode i.opcode)) (m.step env i).machine.journal := by
  rcases step_machine env i m with left | left <;> rw [left]
  · exact Journal.adds_of_eq rfl
  rw [execute]
  split
  next =>
    split
    next => split <;> exact Journal.adds_of_eq rfl
    next => exact Journal.adds_of_eq rfl
  next =>
    dsimp only
    split
    next => exact (perform_frame env _ (m.count i)).asked
    next => exact Journal.adds_of_eq rfl

/-- An instruction whose operation is no branch leaves the conditionals as they are. -/
theorem step_conditions (plain : i.data = none → (Operation.ofOpcode i.opcode).branches = false) :
    (m.step env i).machine.conditions = m.conditions := by
  rcases step_machine env i m with left | left <;> rw [left]
  · rfl
  rw [execute]
  split
  next =>
    split
    next => split <;> rfl
    next => rfl
  next none =>
    dsimp only
    split
    next => exact (perform_frame env _ (m.count i)).conditions (plain none)
    next => rfl

end Machine

/-- The instruction that starts the signed part anew. -/
def Instruction.separator : Instruction := ⟨Opcode.codeSeparator, none⟩

theorem Operation.ofOpcode_eq_codeSeparator_iff : ∀ {op : UInt8},
    ofOpcode op = .codeSeparator ↔ op = Opcode.codeSeparator := by
  decide +kernel

namespace Machine

variable {env : Env} {m m' : Machine} {i : Instruction}

/-- What becomes of the start of the signed part: it moves behind a code separator that is
executed. -/
theorem step_codeStart (ran : m.step env i = .running m') :
    m'.codeStart = if m.executing = true ∧ i = .separator then m.position + i.bytes.length
      else m.codeStart := by
  have done : ((m.count i).execute env i).machine = m' := congrArg Outcome.machine (step_inv ran)
  have same : (m.count i).executing = m.executing := rfl
  rw [← done]
  rcases i with ⟨op, _ | data⟩ <;> simp only [execute, same]
  -- the separator is known by its opcode, and has no effect where it is skipped
  · have own : (⟨op, none⟩ : Instruction) = .separator ↔
        Operation.ofOpcode op = .codeSeparator := by
      rw [Operation.ofOpcode_eq_codeSeparator_iff, Instruction.separator, Instruction.mk.injEq,
        and_iff_left rfl]
    split
    next active =>
      rw [perform_codeStart]
      by_cases separates : Operation.ofOpcode op = .codeSeparator
      · have inert : Operation.codeSeparator.runsWhenSkipped = false := rfl
        rw [separates, inert, Bool.or_false] at active
        rw [if_pos separates, if_pos ⟨active, own.2 separates⟩]
        rfl
      · rw [if_neg separates, if_neg fun both => separates (own.1 both.2)]
        rfl
    next skipped =>
      rw [Bool.or_eq_true, not_or] at skipped
      rw [if_neg fun both => skipped.1 both.1]
      rfl
  -- what pushes data is no separator
  · have other : (⟨op, some data⟩ : Instruction) ≠ .separator := by
      simp [Instruction.separator]
    have stays : (if m.executing = true ∧ (⟨op, some data⟩ : Instruction) = .separator then
        m.position + (⟨op, some data⟩ : Instruction).bytes.length
        else m.codeStart) = m.codeStart :=
      if_neg fun both => other both.2
    rw [stays]
    split
    next => split <;> rfl
    next => rfl

end Machine

end BlockRules
