import Mathlib
import BlockRules.Proofs.Script.Procedures
import BlockRules.Proofs.Script.Soundness

/-!
# No address is refused

The operations by address (`BlockRules.Proofs.Script.Procedures`) do what the operations of the
machine do. Since they would break down at any access that is out of range, this says that
there is none.

* **operations** — one lemma for each family, from which `Procedure.perform_eq` is put together.
  For the multi-signature check the counters are tied to what they count: the walk finds keys
  and signatures where it looks for them (`Procedure.matchKeys_eq`), and the clearing takes off
  what the check has counted (`Procedure.settleMultiSig_eq`);
* **scripts** — `Procedure.evaluate_eq`: a whole evaluation by address is the evaluation, since
  along every run the invariant `Machine.At` keeps offsets and counts small.
-/

namespace BlockRules

namespace Procedure

open Machine (whenVerified)

/-! ## Single accesses -/

variable {env : Env} {m m' : Machine} {α : Type} {x : Procedure α} {f : α → Procedure Unit}

theorem outcome_bind_ok {a : α} (h : x m = .ok a m') :
    (x >>= f).outcome m = (f a).outcome m' := by
  simp only [outcome, bind, EStateM.bind, h]

theorem outcome_bind_error {stop : Stop} (h : x m = .error stop m') :
    (x >>= f).outcome m = .halted stop m' := by
  simp only [outcome, bind, EStateM.bind, h]

/-- A check at the front of a procedure fails or is passed with nothing changed. -/
theorem outcome_failWhen {c : Prop} [Decidable c] {e : ScriptError} {f : Unit → Procedure Unit} :
    outcome (failWhen c e >>= f) m = if c then m.fail e else (f ()).outcome m := by
  rw [failWhen]
  split
  next => rfl
  next => rfl

theorem outcome_need {n : Nat} {f : Unit → Procedure Unit} :
    (need n >>= f).outcome m =
      if m.stack.length < n then m.fail .invalidStackOperation else (f ()).outcome m := by
  have asked : (need n >>= f).outcome m =
      outcome (failWhen (m.stack.length < n) .invalidStackOperation >>= f) m := rfl
  rw [asked, outcome_failWhen]

theorem number_of_ok {limit depth : Nat} {top : Bytes} {n : Int} (found : item depth m = .ok top m)
    (read : env.flags.readNumber limit top = .ok n) : number env limit depth m = .ok n m := by
  simp only [number, bind, EStateM.bind, found, read]
  rfl

theorem number_of_error {limit depth : Nat} {top : Bytes} {stop : Stop}
    (found : item depth m = .ok top m) (read : env.flags.readNumber limit top = .error stop) :
    number env limit depth m = .error stop m := by
  simp only [number, bind, EStateM.bind, found, read]
  rfl

/-- An address names the item at its depth, if there are that many. -/
theorem depth?_neg {s : Stack Bytes} {k : Nat} (inside : k < s.length) :
    Stack.depth? s (-((k + 1 : Nat) : Int)) = .ok ⟨k, inside⟩ := by
  rw [Stack.depth?, dif_pos ⟨by omega, by omega⟩]
  congr 2

theorem item_of_lt {k : Nat} (inside : k < m.stack.length) :
    item (k + 1) m = .ok m.stack[k] m := by
  have found : Stack.top? m.stack (-((k + 1 : Nat) : Int)) = .ok m.stack[k] := by
    rw [Stack.top?, depth?_neg inside]
    rfl
  change orCrash (Stack.top? m.stack (-((k + 1 : Nat) : Int))) m = _
  rw [found]
  rfl

theorem takeOut_of_lt {k : Nat} (inside : k < m.stack.length) :
    takeOut (k + 1) m = .ok m.stack[k] { m with stack := m.stack.eraseIdx k } := by
  have found : Stack.remove? m.stack (-((k + 1 : Nat) : Int)) =
      .ok (m.stack[k], m.stack.eraseIdx k) := by
    rw [Stack.remove?, depth?_neg inside]
    rfl
  simp only [takeOut, bind, EStateM.bind, get, getThe, MonadStateOf.get, EStateM.get, found]
  rfl

/-- A truth value that is left or checked. -/
theorem conclude_eq (ifFalse : Option ScriptError) (holds : Bool) :
    (conclude ifFalse holds).outcome m = m.conclude ifFalse holds := by
  rcases ifFalse with _ | e
  · rfl
  · cases holds <;> rfl

/-- An arrangement finds every item where it looks for it. -/
theorem arrange_eq (a : Arrange) : (arrange a).outcome m = m.perform env (.arrange a) := by
  obtain ⟨stack, alt, conditions, opCount, codeStart, position, journal⟩ := m
  cases a
  case drop | dup | size => rcases stack with _ | ⟨a, s⟩ <;> rfl
  case drop2 | dup2 | nip | swap | tuck => rcases stack with _ | ⟨a, _ | ⟨b, s⟩⟩ <;> rfl
  case dup3 | rot => rcases stack with _ | ⟨a, _ | ⟨b, _ | ⟨c, s⟩⟩⟩ <;> rfl
  case over2 | swap2 =>
    rcases stack with _ | ⟨a, _ | ⟨b, _ | ⟨c, _ | ⟨d, s⟩⟩⟩⟩ <;> rfl
  case rot2 =>
    rcases stack
      with _ | ⟨a, _ | ⟨b, _ | ⟨c, _ | ⟨d, _ | ⟨e, _ | ⟨f, s⟩⟩⟩⟩⟩⟩ <;> rfl
  case depth => rfl
  case ifDup =>
    rcases stack with _ | ⟨a, s⟩
    · rfl
    · change outcome (if truthy a then push a else pure ()) _ =
        .running
          { stack := if truthy a then a :: a :: s else a :: s
            alt, conditions, opCount, codeStart, position, journal }
      cases truthy a <;> rfl
  · rcases stack with _ | ⟨a, _ | ⟨b, s⟩⟩ <;> rfl

theorem unary_eq (f : Unary) : (unary env f).outcome m = m.unary env f := by
  obtain ⟨stack, alt, conditions, opCount, codeStart, position, journal⟩ := m
  rcases stack with _ | ⟨a, s⟩
  · rfl
  simp only [Machine.unary]
  refine (outcome_bind_ok rfl).trans ?_
  rcases read : env.flags.readNumber Limit.number a with stop | n
  · exact outcome_bind_error (number_of_error rfl read)
  refine (outcome_bind_ok (number_of_ok rfl read)).trans ?_
  dsimp only
  rcases signed64 (f.apply n) with fault | result <;> rfl

theorem binary_eq (f : Binary) (verify : Bool) :
    (binary env f verify).outcome m = m.binary env f verify := by
  obtain ⟨stack, alt, conditions, opCount, codeStart, position, journal⟩ := m
  rcases stack with _ | ⟨b, _ | ⟨a, s⟩⟩
  · rfl
  · rfl
  simp only [Machine.binary]
  refine (outcome_bind_ok rfl).trans ?_
  rcases readA : env.flags.readNumber Limit.number a with stop | first
  · exact outcome_bind_error (number_of_error rfl readA)
  refine (outcome_bind_ok (number_of_ok rfl readA)).trans ?_
  rcases readB : env.flags.readNumber Limit.number b with stop | second
  · exact outcome_bind_error (number_of_error rfl readB)
  refine (outcome_bind_ok (number_of_ok rfl readB)).trans ?_
  dsimp only
  rcases signed64 (f.apply first second) with fault | result
  · rfl
  · cases verify with
    | false => rfl
    | true => exact conclude_eq (some .numEqualVerify) (result ≠ 0)

theorem within_eq : (within env).outcome m = m.within env := by
  obtain ⟨stack, alt, conditions, opCount, codeStart, position, journal⟩ := m
  rcases stack with _ | ⟨high, _ | ⟨low, _ | ⟨x, s⟩⟩⟩
  · rfl
  · rfl
  · rfl
  simp only [Machine.within]
  refine (outcome_bind_ok rfl).trans ?_
  rcases readX : env.flags.readNumber Limit.number x with stop | n
  · exact outcome_bind_error (number_of_error rfl readX)
  refine (outcome_bind_ok (number_of_ok rfl readX)).trans ?_
  rcases readLow : env.flags.readNumber Limit.number low with stop | least
  · exact outcome_bind_error (number_of_error rfl readLow)
  refine (outcome_bind_ok (number_of_ok rfl readLow)).trans ?_
  rcases readHigh : env.flags.readNumber Limit.number high with stop | bound
  · exact outcome_bind_error (number_of_error rfl readHigh)
  exact outcome_bind_ok (number_of_ok rfl readHigh)

theorem fetch_eq (move : Bool) : (fetch env move).outcome m = m.fetch env move := by
  obtain ⟨stack, alt, conditions, opCount, codeStart, position, journal⟩ := m
  rcases stack with _ | ⟨top, _ | ⟨next, s⟩⟩
  · rfl
  · rfl
  simp only [Machine.fetch]
  refine (outcome_bind_ok rfl).trans ?_
  rcases read : env.flags.readNumber Limit.number top with stop | n
  · exact outcome_bind_error (number_of_error rfl read)
  refine (outcome_bind_ok (number_of_ok rfl read)).trans ?_
  refine (outcome_bind_ok rfl).trans ?_
  refine outcome_failWhen.trans ?_
  dsimp only
  by_cases negative : ScriptNum.clamp32 n < 0
  · rw [if_pos (.inl negative), if_pos negative]
  rw [if_neg negative]
  by_cases deep : (((next :: s).length : Nat) : Int) ≤ ScriptNum.clamp32 n
  · rw [if_pos (.inr deep), List.getElem?_eq_none (by omega)]
  · have inside : (ScriptNum.clamp32 n).toNat < (next :: s).length := by omega
    rw [if_neg (not_or.2 ⟨negative, deep⟩), List.getElem?_eq_getElem inside]
    cases move with
    | false => exact outcome_bind_ok (item_of_lt inside)
    | true => exact outcome_bind_ok (takeOut_of_lt inside)

/-! ### Signatures -/

theorem askSignature_of_error {code sig key : Bytes} {stop : Stop}
    (refused : env.flags.checkForms env.version sig key = .error stop) :
    askSignature env code sig key m = .error stop m := by
  simp only [askSignature, refused]
  rfl

theorem askSignature_of_yes {code sig key : Bytes} {after : Journal}
    (allowed : env.flags.checkForms env.version sig key = .ok ())
    (asked : m.journal.ask env.checker (.signature sig key code env.version) = (.yes, after)) :
    askSignature env code sig key m = .ok true { m with journal := after } := by
  simp only [askSignature, allowed, ask, bind, EStateM.bind, get, getThe, MonadStateOf.get,
    EStateM.get, asked]
  rfl

theorem askSignature_of_no {code sig key : Bytes} {after : Journal}
    (allowed : env.flags.checkForms env.version sig key = .ok ())
    (asked : m.journal.ask env.checker (.signature sig key code env.version) = (.no, after)) :
    askSignature env code sig key m = .ok false { m with journal := after } := by
  simp only [askSignature, allowed, ask, bind, EStateM.bind, get, getThe, MonadStateOf.get,
    EStateM.get, asked]
  rfl

/-- A checker that breaks down ends the procedure, with the query in its journal. -/
theorem askSignature_of_crash {code sig key : Bytes} {text : Option String} {after : Journal}
    (allowed : env.flags.checkForms env.version sig key = .ok ())
    (asked : m.journal.ask env.checker (.signature sig key code env.version) =
      (.crash text, after)) :
    askSignature env code sig key m = .error (.ofCrash text) { m with journal := after } := by
  simp only [askSignature, allowed, ask, bind, EStateM.bind, get, getThe, MonadStateOf.get,
    EStateM.get, asked]
  rfl

/-- Deleting signatures one after another is one fold, and no deletion breaks down. -/
theorem deleteAll_eq {sigs : List Bytes} {code : Bytes} :
    deleteAll sigs code =
      .ok (sigs.foldl
        (fun code sig => (Script.findAndDelete code (Script.pushData sig)).1) code) := by
  induction sigs generalizing code with
  | nil => rfl
  | cons sig sigs ih =>
    rw [deleteAll, Script.findAndDeleteAt_eq]
    exact ih

/-- The signed part is a slice of the script if it starts inside of it. -/
theorem signedCode_eq {sigs : List Bytes} :
    signedCode env sigs m =
      match m.signedCode env sigs with
      | .ok code => .ok code m
      | .error fault => .error (.ofFault fault) m := by
  simp only [signedCode, Machine.signedCode, bind, EStateM.bind, get, getThe, MonadStateOf.get,
    EStateM.get]
  by_cases outside : env.script.length < m.codeStart
  · rw [if_pos outside, Bytes.slice, if_neg (by omega)]
    rfl
  · rw [if_neg outside, Bytes.slice_to_end (Nat.le_of_not_lt outside)]
    rcases env.version with _ | _
    · simp only [deleteAll_eq]
      rfl
    · rfl

theorem signedCode_of_ok {sigs : List Bytes} {code : Bytes}
    (signed : m.signedCode env sigs = .ok code) : signedCode env sigs m = .ok code m := by
  rw [signedCode_eq, signed]

theorem signedCode_of_error {sigs : List Bytes} {fault : Fault}
    (unsigned : m.signedCode env sigs = .error fault) :
    signedCode env sigs m = .error (.ofFault fault) m := by
  rw [signedCode_eq, unsigned]

/-- The check of a signature by address is the one on the stack as a list. -/
theorem checkSig_eq (verify : Bool) : (checkSig env verify).outcome m = m.checkSig env verify := by
  obtain ⟨stack, alt, conditions, opCount, codeStart, position, journal⟩ := m
  rcases stack with _ | ⟨key, _ | ⟨sig, s⟩⟩
  · rfl
  · rfl
  simp only [Machine.checkSig]
  refine (outcome_bind_ok rfl).trans ((outcome_bind_ok rfl).trans ((outcome_bind_ok rfl).trans ?_))
  split
  next fault unsigned => exact outcome_bind_error (signedCode_of_error unsigned)
  next code signed =>
  refine (outcome_bind_ok (signedCode_of_ok signed)).trans ?_
  split
  next stop refused => exact outcome_bind_error (askSignature_of_error refused)
  next allowed =>
  rcases asked : journal.ask env.checker (.signature sig key code env.version) with
    ⟨_ | _ | text, after⟩
  · exact (outcome_bind_ok (askSignature_of_yes allowed asked)).trans (conclude_eq _ true)
  · refine (outcome_bind_ok (askSignature_of_no allowed asked)).trans (outcome_failWhen.trans ?_)
    change (if (env.flags.has .nullFail && !sig.isEmpty) = true then _ else _) = _
    dsimp only
    split
    next => rfl
    next => exact conclude_eq _ false
  · exact outcome_bind_error (askSignature_of_crash allowed asked)

/-- The items from a depth on are those that the stack holds there. -/
theorem items_eq {depth n : Nat} (inside : depth + n ≤ m.stack.length) :
    items (depth + 1) n m = .ok ((m.stack.drop depth).take n) m := by
  induction n generalizing depth with
  | zero => rfl
  | succ n ih =>
    have here : depth < m.stack.length := by omega
    have rest := @ih (depth + 1) (by omega)
    simp only [items, bind, EStateM.bind, item_of_lt here, rest]
    rw [List.drop_eq_getElem_cons here]
    rfl

theorem item_of_drop {depth : Nat} {top : Bytes} {rest : Stack Bytes}
    (there : m.stack.drop depth = top :: rest) : item (depth + 1) m = .ok top m := by
  have here : m.stack[depth]? = some top := by
    rw [← List.head?_drop, there]
    rfl
  obtain ⟨inside, rfl⟩ := List.getElem?_eq_some_iff.1 here
  exact item_of_lt inside

/-- One key: the walk finds it and the signature, and asks about them. -/
theorem matchKeys_cons {code sig key : Bytes} {sigs keys restSigs restKeys : List Bytes}
    {sigDepth keyDepth : Nat} {journal : Journal}
    (sigThere : m.stack.drop sigDepth = sig :: restSigs)
    (keyThere : m.stack.drop keyDepth = key :: restKeys) :
    matchKeys env code (sig :: sigs).length (key :: keys).length (sigDepth + 1) (keyDepth + 1)
        { m with journal } =
      match askSignature env code sig key { m with journal } with
      | .ok true m =>
        if keys.length < sigs.length then .ok false m
        else matchKeys env code sigs.length keys.length (sigDepth + 2) (keyDepth + 2) m
      | .ok false m =>
        if keys.length < sigs.length + 1 then .ok false m
        else matchKeys env code (sig :: sigs).length keys.length (sigDepth + 1) (keyDepth + 2) m
      | .error stop m => .error stop m := by
  have sigFound := @item_of_drop { m with journal } _ _ _ sigThere
  have keyFound := @item_of_drop { m with journal } _ _ _ keyThere
  rw [List.length_cons, List.length_cons, matchKeys]
  simp only [bind, EStateM.bind, sigFound, keyFound]
  rcases askSignature env code sig key { m with journal } with ⟨_ | _, m⟩ | ⟨stop, m⟩
  · simp only [Bool.false_eq_true, if_false]
    by_cases few : keys.length < sigs.length + 1
    · simp only [if_pos few]
      rfl
    · simp only [if_neg few]
  · simp only [if_true]
    by_cases few : keys.length < sigs.length
    · simp only [if_pos few]
      rfl
    · simp only [if_neg few]
  · rfl

/-- The walk over keys and signatures finds both where its counters say, as long as there are
no fewer keys than signatures. -/
theorem matchKeys_eq {code : Bytes} {sigs keys restSigs restKeys : List Bytes}
    {sigDepth keyDepth : Nat} {journal : Journal} (few : sigs.length ≤ keys.length)
    (sigsThere : m.stack.drop sigDepth = sigs ++ restSigs)
    (keysThere : m.stack.drop keyDepth = keys ++ restKeys) :
    matchKeys env code sigs.length keys.length (sigDepth + 1) (keyDepth + 1) { m with journal } =
      match Machine.matchKeys env code sigs keys journal with
      | (.ok success, journal) => .ok success { m with journal }
      | (.error stop, journal) => .error stop { m with journal } := by
  -- a depth moves on as soon as the item at it is done with
  have next :
    ∀ {depth : Nat} {top : Bytes} {rest : Stack Bytes}, m.stack.drop depth = top :: rest →
      m.stack.drop (depth + 1) = rest := by
    intro depth top rest there
    rw [← List.tail_drop, there]
    rfl
  fun_induction Machine.matchKeys env code sigs keys journal generalizing sigDepth keyDepth with
  | case1 =>
    rw [List.length_nil, matchKeys]
    rfl
  | case2 => cases few
  | case3 sig sigs key keys journal stop refused =>
    rw [matchKeys_cons sigsThere keysThere, askSignature_of_error refused]
  | case4 sig sigs key keys journal allowed text after asked =>
    rw [matchKeys_cons sigsThere keysThere,
      @askSignature_of_crash env { m with journal } _ _ _ _ _ allowed asked]
  | case5 sig sigs key keys journal allowed after asked lost =>
    rw [matchKeys_cons sigsThere keysThere,
      @askSignature_of_yes env { m with journal } _ _ _ _ allowed asked]
    exact if_pos lost
  | case6 sig sigs key keys journal allowed after asked enough ih =>
    rw [matchKeys_cons sigsThere keysThere,
      @askSignature_of_yes env { m with journal } _ _ _ _ allowed asked]
    exact (if_neg enough).trans (ih (Nat.le_of_not_lt enough) (next sigsThere) (next keysThere))
  | case7 sig sigs key keys journal allowed after asked lost =>
    rw [matchKeys_cons sigsThere keysThere,
      @askSignature_of_no env { m with journal } _ _ _ _ allowed asked]
    exact if_pos lost
  | case8 sig sigs key keys journal allowed after asked enough ih =>
    rw [matchKeys_cons sigsThere keysThere,
      @askSignature_of_no env { m with journal } _ _ _ _ allowed asked]
    exact (if_neg enough).trans (ih (Nat.le_of_not_lt enough) sigsThere (next keysThere))

/-- What counting keys or signatures comes to. -/
theorem count_eq {depth bound : Nat} {e : ScriptError} {top : Bytes}
    (found : item depth m = .ok top m) :
    count env depth bound e m =
      match Machine.readCount env bound top with
      | .error stop => .error stop m
      | .ok none => .error (.failed e) m
      | .ok (some n) => .ok n m := by
  rw [Machine.readCount]
  rcases read : env.flags.readNumber Limit.number top with stop | n
  · simp only [count, bind, EStateM.bind, number_of_error found read]
  · simp only [count, bind, EStateM.bind, number_of_ok found read, failWhen]
    by_cases out : ScriptNum.clamp32 n < 0 ∨ (bound : Int) < ScriptNum.clamp32 n
    · simp only [if_pos out]
      rfl
    · simp only [if_neg out]
      rfl

/-- One item is taken off, if it need not be empty or is. -/
theorem clear_succ {success : Bool} {n keysLeft : Nat} {top : Bytes} {rest : Stack Bytes} :
    clear env success (n + 1) keysLeft { m with stack := top :: rest } =
      if !success && env.flags.has .nullFail && keysLeft == 0 && !top.isEmpty then
        .error (.failed .nullFail) { m with stack := top :: rest }
      else clear env success n (keysLeft - 1) { m with stack := rest } := by
  rw [clear]
  have found : item 1 { m with stack := top :: rest } = .ok top { m with stack := top :: rest } :=
    rfl
  simp only [bind, EStateM.bind, found, failWhen]
  by_cases stops : (!success && env.flags.has .nullFail && keysLeft == 0 && !top.isEmpty) = true
  · simp only [if_pos stops]
    rfl
  · simp only [if_neg stops]
    rfl

/-- The items above the signatures are taken off unseen. -/
theorem clear_front {success : Bool} {n : Nat} {front rest : Stack Bytes} :
    clear env success (front.length + n) front.length { m with stack := front ++ rest } =
      clear env success n 0 { m with stack := rest } := by
  induction front with
  | nil =>
    rw [List.length_nil, Nat.zero_add]
    rfl
  | cons top front ih =>
    have size : (top :: front).length + n = front.length + n + 1 := by
      rw [List.length_cons]
      omega
    rw [size, List.length_cons, List.cons_append, clear_succ, if_neg (by simp),
      Nat.add_sub_cancel, ih]

/-- After a failed check the signatures are taken off up to one that is not empty. -/
theorem clear_sigs {success : Bool} {sigs rest : Stack Bytes} :
    clear env success sigs.length 0 { m with stack := sigs ++ rest } =
      if !success && env.flags.has .nullFail && sigs.any (!·.isEmpty) then
        .error (.failed .nullFail) { m with stack := sigs.dropWhile List.isEmpty ++ rest }
      else .ok () { m with stack := rest } := by
  induction sigs with
  | nil =>
    rw [List.any_nil, Bool.and_false]
    rfl
  | cons sig sigs ih =>
    rw [List.length_cons, List.cons_append, clear_succ, ih]
    rcases sig with _ | ⟨b, sig⟩
    · simp
    · cases !success && env.flags.has .nullFail <;> simp

/-- Clearing the stack and settling the result. -/
theorem settleMultiSig_eq {verify success : Bool} {keys n : Nat} {front sigs rest : Stack Bytes}
    (stack : m.stack = front ++ (sigs ++ rest)) (frontSize : front.length = keys + 2)
    (sigsSize : sigs.length = n) :
    (settleMultiSig env verify keys n success).outcome m =
      Machine.settleMultiSig env verify (keys + 2 + n) sigs success m := by
  obtain ⟨_, alt, conditions, opCount, codeStart, position, journal⟩ := m
  subst sigsSize
  subst stack
  have cleared := (@clear_front env ⟨[], alt, conditions, opCount, codeStart, position, journal⟩
    success sigs.length front (sigs ++ rest)).trans clear_sigs
  rw [← frontSize, Machine.settleMultiSig, settleMultiSig, ← frontSize]
  by_cases stops : (!success && env.flags.has .nullFail && sigs.any (!·.isEmpty)) = true
  · rw [if_pos stops] at cleared ⊢
    refine (outcome_bind_error cleared).trans ?_
    -- the items up to the first signature that is not empty are gone
    have left : (front ++ (sigs ++ rest)).drop (front.length + sigs.length - sigs.length +
        (sigs.takeWhile List.isEmpty).length) = sigs.dropWhile List.isEmpty ++ rest := by
      have parts : sigs ++ rest =
          sigs.takeWhile List.isEmpty ++ (sigs.dropWhile List.isEmpty ++ rest) := by
        rw [← List.append_assoc, List.takeWhile_append_dropWhile]
      rw [Nat.add_sub_cancel, List.drop_length_add_append, parts, List.drop_left]
    simp only [left]
    rfl
  · rw [if_neg stops] at cleared ⊢
    refine (outcome_bind_ok cleared).trans ?_
    have left : (front ++ (sigs ++ rest)).drop (front.length + sigs.length) = rest := by
      rw [List.drop_length_add_append, List.drop_left]
    simp only [left]
    rcases rest with _ | ⟨dummy, rest⟩
    · rfl
    · refine (outcome_bind_ok rfl).trans ((outcome_bind_ok rfl).trans (outcome_failWhen.trans ?_))
      dsimp only
      split
      next nonempty => exact (if_pos nonempty).symm
      next quiet => exact (conclude_eq _ success).trans (if_neg quiet).symm

/-- The number of operations stays a word as long as there are not too many. -/
theorem countOperations_eq {k : Nat} (few : m.opCount ≤ Limit.operations) (most : k ≤ Limit.keys) :
    countOperations k m =
      if Limit.operations < m.opCount + k then
        .error (.failed .opCount) { m with opCount := m.opCount + k }
      else .ok () { m with opCount := m.opCount + k } := by
  have word : unsigned64 (m.opCount + k) = .ok (m.opCount + k) := by
    rw [Limit.operations] at few
    rw [Limit.keys] at most
    rw [unsigned64, if_pos (by omega)]
  simp only [countOperations, bind, EStateM.bind, get, getThe, MonadStateOf.get, EStateM.get, word]
  change failWhen (Limit.operations < m.opCount + k) .opCount
    { m with opCount := m.opCount + k } = _
  rw [failWhen]
  by_cases many : Limit.operations < m.opCount + k
  · rw [if_pos many, if_pos many]
    rfl
  · rw [if_neg many, if_neg many]
    rfl

/-- With the counts known, the keys and signatures are where the check looks for them, and
there are enough items to take off. -/
theorem judgeMultiSig_eq {verify : Bool} {keyCount sigCount : Bytes} {keys sigs rest : List Bytes}
    (few : sigs.length ≤ keys.length)
    (stack : m.stack = keyCount :: (keys ++ sigCount :: (sigs ++ rest))) :
    (judgeMultiSig env verify keys.length sigs.length).outcome m =
      match m.signedCode env sigs with
      | .error fault => m.halt (.ofFault fault)
      | .ok code =>
        match Machine.matchKeys env code sigs keys m.journal with
        | (.error stop, journal) => ({ m with journal } : Machine).halt stop
        | (.ok success, journal) =>
          Machine.settleMultiSig env verify (keys.length + sigs.length + 2) sigs success
            { m with journal } := by
  -- where the keys and the signatures are, counted from the top
  have keysThere : m.stack.drop 1 = keys ++ sigCount :: (sigs ++ rest) := by
    rw [stack]
    rfl
  have sigsThere : m.stack.drop (keys.length + 2) = sigs ++ rest := by
    rw [stack]
    have front : keys.length + 2 = (keyCount :: (keys ++ [sigCount])).length := by simp
    have parts : keyCount :: (keys ++ sigCount :: (sigs ++ rest)) =
        keyCount :: (keys ++ [sigCount]) ++ (sigs ++ rest) := by simp
    rw [front, parts, List.drop_left]
  have deep : keys.length + 2 + sigs.length ≤ m.stack.length := by
    rw [stack]
    simp only [List.length_cons, List.length_append]
    omega
  have found := items_eq deep
  rw [sigsThere, List.take_left] at found
  refine (outcome_bind_ok found).trans ?_
  split
  next fault unsigned => exact outcome_bind_error (signedCode_of_error unsigned)
  next code signed =>
  refine (outcome_bind_ok (signedCode_of_ok signed)).trans ?_
  have walked := @matchKeys_eq env m code sigs keys rest _ _ 1 m.journal few sigsThere keysThere
  rcases matched : Machine.matchKeys env code sigs keys m.journal with ⟨stop | success, after⟩
  · rw [matched] at walked
    exact outcome_bind_error walked
  rw [matched] at walked
  refine (outcome_bind_ok walked).trans ?_
  -- what the walk has looked at, and the extra item behind it, are taken off
  have shape : m.stack = keyCount :: (keys ++ [sigCount]) ++ (sigs ++ rest) := by simp [stack]
  have taken : keys.length + sigs.length + 2 = keys.length + 2 + sigs.length := by omega
  rw [taken]
  exact settleMultiSig_eq shape (by simp) rfl

/-- **The multi-signature check by address.** The depths it calculates are those of the counts,
the keys and the signatures, and there are enough items to take off. -/
theorem checkMultiSig_eq (verify : Bool) (few : m.opCount ≤ Limit.operations) :
    (checkMultiSig env verify).outcome m = m.checkMultiSig env verify := by
  obtain ⟨stack, alt, conditions, opCount, codeStart, position, journal⟩ := m
  rcases stack with _ | ⟨keyCount, below⟩
  · rfl
  simp only [Machine.checkMultiSig]
  refine (outcome_bind_ok rfl).trans ?_
  have keyCounted :=
    @count_eq env ⟨keyCount :: below, alt, conditions, opCount, codeStart, position,
    journal⟩ 1 Limit.keys .pubkeyCount keyCount rfl
  rcases keys : Machine.readCount env Limit.keys keyCount with stop | _ | k
  · rw [keys] at keyCounted
    exact outcome_bind_error keyCounted
  · rw [keys] at keyCounted
    exact outcome_bind_error keyCounted
  rw [keys] at keyCounted
  refine (outcome_bind_ok keyCounted).trans ?_
  have counted :=
    @countOperations_eq ⟨keyCount :: below, alt, conditions, opCount, codeStart, position,
    journal⟩ k few (Machine.readCount_le keys)
  dsimp only at counted ⊢
  split
  next many =>
    rw [if_pos many] at counted
    exact outcome_bind_error counted
  next enough =>
  rw [if_neg enough] at counted
  refine (outcome_bind_ok counted).trans (outcome_need.trans ?_)
  dsimp only
  rcases split : below.drop k with _ | ⟨sigCount, belowKeys⟩
  · rw [if_pos]
    rw [List.length_cons]
    have short := List.drop_eq_nil_iff.1 split
    omega
  -- behind the keys there is an item, so there are as many keys as announced
  have parts : below = below.take k ++ sigCount :: belowKeys := by
    rw [← split, List.take_append_drop]
  have keysSize : (below.take k).length = k := by
    have deep : ¬below.length ≤ k := fun short => by simp [List.drop_eq_nil_iff.2 short] at split
    rw [List.length_take]
    omega
  have size : below.length = k + 1 + belowKeys.length := by
    have whole := congrArg List.length parts
    rw [List.length_append, keysSize, List.length_cons] at whole
    omega
  rw [if_neg (by rw [List.length_cons]; omega)]
  have sigCounted :=
    @count_eq env ⟨keyCount :: below, alt, conditions, opCount + k, codeStart, position,
    journal⟩ (k + 2) k .sigCount sigCount (item_of_drop split)
  dsimp only
  rcases sigs : Machine.readCount env k sigCount with stop | _ | s
  · rw [sigs] at sigCounted
    exact outcome_bind_error sigCounted
  · rw [sigs] at sigCounted
    exact outcome_bind_error sigCounted
  rw [sigs] at sigCounted
  refine (outcome_bind_ok sigCounted).trans (outcome_need.trans ?_)
  dsimp only
  by_cases shallow : belowKeys.length < s + 1
  · rw [if_pos shallow, if_pos (by rw [List.length_cons]; omega)]
  rw [if_neg shallow, if_neg (by rw [List.length_cons]; omega)]
  have sigsSize : (belowKeys.take s).length = s := by
    rw [List.length_take]
    omega
  have judged :=
    @judgeMultiSig_eq env ⟨keyCount :: below, alt, conditions, opCount + k, codeStart,
    position, journal⟩ verify keyCount sigCount (below.take k) (belowKeys.take s)
    (belowKeys.drop s)
    (by rw [sigsSize, keysSize]; exact Machine.readCount_le sigs)
    (by rw [List.take_append_drop]; exact congrArg (keyCount :: ·) parts)
  rw [keysSize, sigsSize] at judged
  exact judged

/-! ### All operations -/

theorem askTime_eq (q : Query) :
    (do failWhen (!(← ask env q)) .unsatisfiedLockTime : Procedure Unit).outcome m =
      m.askTime env q := by
  rw [Machine.askTime]
  rcases asked : m.journal.ask env.checker q with ⟨_ | _ | text, after⟩ <;>
    simp only [outcome, ask, bind, EStateM.bind, get, getThe, MonadStateOf.get, EStateM.get, asked]
  · rfl
  · rfl
  · rfl

/-- The check of the lock time is the check of a time with no bit that switches it off. -/
theorem checkTime_lockTime_eq :
    (checkTime env .lockTime fun _ => false).outcome m = m.checkLockTime env := by
  obtain ⟨stack, alt, conditions, opCount, codeStart, position, journal⟩ := m
  rcases stack with _ | ⟨top, s⟩
  · rfl
  simp only [Machine.checkLockTime]
  refine (outcome_bind_ok rfl).trans ?_
  rcases read : env.flags.readNumber Limit.lockTime top with stop | n
  · exact outcome_bind_error (number_of_error rfl read)
  refine (outcome_bind_ok (number_of_ok rfl read)).trans (outcome_failWhen.trans ?_)
  dsimp only
  split
  next => rfl
  next => exact askTime_eq (.lockTime n)

/-- The check of the sequence is the check of a time that bit 31 switches off. -/
theorem checkTime_sequence_eq :
    (checkTime env .sequence fun n => n.toNat.testBit 31).outcome m = m.checkSequence env := by
  obtain ⟨stack, alt, conditions, opCount, codeStart, position, journal⟩ := m
  rcases stack with _ | ⟨top, s⟩
  · rfl
  simp only [Machine.checkSequence]
  refine (outcome_bind_ok rfl).trans ?_
  rcases read : env.flags.readNumber Limit.lockTime top with stop | n
  · exact outcome_bind_error (number_of_error rfl read)
  refine (outcome_bind_ok (number_of_ok rfl read)).trans (outcome_failWhen.trans ?_)
  dsimp only
  split
  next => rfl
  next =>
    by_cases exempt : n.toNat.testBit 31 = true
    · simp only [if_pos exempt]
      rfl
    · simp only [if_neg exempt]
      exact askTime_eq (.sequence n)

theorem openBranch_eq (inverted : Bool) :
    (openBranch env inverted).outcome m = m.openBranch env inverted := by
  obtain ⟨stack, alt, conditions, opCount, codeStart, position, journal⟩ := m
  refine (outcome_bind_ok rfl).trans ?_
  rw [Machine.openBranch]
  split
  next =>
    rcases stack with _ | ⟨top, s⟩
    · rfl
    · refine (outcome_bind_ok rfl).trans ((outcome_bind_ok rfl).trans ((outcome_bind_ok rfl).trans
        (outcome_failWhen.trans ?_)))
      dsimp only
      split
      next minimal => exact (if_pos minimal).symm
      next free => exact (if_neg free).symm
  next => rfl

theorem plainly_outcome (x : Machine → Outcome) : (plainly x).outcome m = x m := by
  rw [outcome, plainly]
  rcases x m with m | ⟨stop, m⟩ <;> rfl

/-- **No address is refused.** The operations by address and those of the machine lead to the
same, as long as there are not too many operations. -/
theorem perform_eq (op : Operation) (few : m.opCount ≤ Limit.operations) :
    (perform env op).outcome m = m.perform env op := by
  cases op
  case checkLockTime =>
    simp only [perform, Machine.perform]
    split
    next => exact checkTime_lockTime_eq
    next => exact plainly_outcome _
  case checkSequence =>
    simp only [perform, Machine.perform]
    split
    next => exact checkTime_sequence_eq
    next => exact plainly_outcome _
  case openBranch inverted => exact openBranch_eq inverted
  case verify =>
    obtain ⟨stack, alt, conditions, opCount, codeStart, position, journal⟩ := m
    rcases stack with _ | ⟨top, s⟩
    · rfl
    · refine (outcome_bind_ok rfl).trans ((outcome_bind_ok rfl).trans (outcome_failWhen.trans ?_))
      simp only [Machine.perform]
      change (if (!truthy top) = true then _ else _) = _
      by_cases holds : truthy top = true
      · rw [if_pos holds, if_neg (by simp [holds])]
        rfl
      · rw [if_neg holds, if_pos (by simp [holds])]
  case toAlt =>
    obtain ⟨stack, alt, conditions, opCount, codeStart, position, journal⟩ := m
    rcases stack with _ | ⟨top, s⟩ <;> rfl
  case arrange a => exact arrange_eq a
  case fetch move => exact fetch_eq move
  case equal verify =>
    obtain ⟨stack, alt, conditions, opCount, codeStart, position, journal⟩ := m
    rcases stack with _ | ⟨b, _ | ⟨a, s⟩⟩
    · rfl
    · rfl
    · exact conclude_eq (whenVerified verify .equalVerify) (a == b)
  case unary f => exact unary_eq f
  case binary f verify => exact binary_eq f verify
  case within => exact within_eq
  case hash h =>
    obtain ⟨stack, alt, conditions, opCount, codeStart, position, journal⟩ := m
    rcases stack with _ | ⟨top, s⟩ <;> rfl
  case checkSig verify => exact checkSig_eq verify
  case checkMultiSig verify => exact checkMultiSig_eq verify few
  -- the other operations address no item
  all_goals simp only [perform, plainly_outcome]

/-! ## Scripts -/

/-- Going on after a program whose outcome is known. -/
theorem outcome_bind {x : Procedure Unit} {f : Unit → Procedure Unit} :
    (x >>= f).outcome m =
      match x.outcome m with
      | .running m => (f ()).outcome m
      | .halted stop m => .halted stop m := by
  simp only [outcome, bind, EStateM.bind]
  rcases x m with ⟨⟨⟩, m⟩ | ⟨stop, m⟩ <;> rfl

/-- Offsets and counts stay words inside a script that is not too long. -/
theorem countInstruction_eq {i : Instruction} {p : Nat} (h : m.At p)
    (short : p + i.bytes.length ≤ Limit.scriptSize) :
    (countInstruction i).outcome m = .running (m.count i) := by
  obtain ⟨standing, -, few⟩ := h
  rw [Limit.scriptSize] at short
  rw [Limit.operations] at few
  have position : unsigned64 (m.position + i.bytes.length) = .ok (m.position + i.bytes.length) := by
    rw [unsigned64, if_pos (by omega)]
  have opCount : unsigned64 (if i.isPush then m.opCount else m.opCount + 1) =
      .ok (if i.isPush then m.opCount else m.opCount + 1) := by
    rw [unsigned64, if_pos (by split <;> omega)]
  simp only [outcome, countInstruction, bind, EStateM.bind, get, getThe, MonadStateOf.get,
    EStateM.get, position, opCount]
  rfl

/-- Executing an instruction by address is executing it on the list. -/
theorem execute_eq {i : Instruction} (few : m.opCount ≤ Limit.operations) :
    (execute env i).outcome m = m.execute env i := by
  refine (outcome_bind_ok rfl).trans ?_
  rw [Machine.execute]
  rcases i.data with _ | data <;> dsimp only
  · split
    next => exact perform_eq _ few
    next => rfl
  · split
    next => exact outcome_failWhen
    next => rfl

theorem checkStackSize_eq {o : Outcome} :
    (match o with
      | .running m => checkStackSize.outcome m
      | .halted stop m => .halted stop m) = Machine.checkStackSize o := by
  rcases o with m | ⟨stop, m⟩
  · have asked : checkStackSize.outcome m =
        outcome (failWhen (Limit.stackItems < m.stack.length + m.alt.length) .stackSize) m := rfl
    refine asked.trans ?_
    rw [Machine.checkStackSize, failWhen]
    split
    next => rfl
    next => rfl
  · rfl

/-- A step by address is a step. -/
theorem step_eq {i : Instruction} {p : Nat} (h : m.At p)
    (short : p + i.bytes.length ≤ Limit.scriptSize) : (step env i).outcome m = m.step env i := by
  simp only [step, Machine.step]
  rw [outcome_bind, countInstruction_eq h short]
  refine outcome_failWhen.trans ?_
  split
  next => rfl
  next =>
  refine (outcome_bind_ok rfl).trans (outcome_failWhen.trans ?_)
  split
  next => rfl
  next few =>
  refine outcome_failWhen.trans ?_
  split
  next => rfl
  next =>
    have counted : (m.count i).opCount ≤ Limit.operations :=
      (Machine.count_at h (Machine.isPush_or_opCount_le few)).2.2
    rw [outcome_bind, execute_eq counted]
    exact checkStackSize_eq

/-- A run by address is a run: the invariant of runs keeps every offset and count a word. -/
theorem run_eq {is : List Instruction} {p : Nat} (h : m.At p)
    (inside : p + (Script.bytes is).length ≤ env.script.length)
    (short : env.script.length ≤ Limit.scriptSize) :
    (run env is).outcome m = Machine.run env is m := by
  induction is generalizing m p with
  | nil => rfl
  | cons i is ih =>
    have size : (Script.bytes (i :: is)).length = i.bytes.length + (Script.bytes is).length := by
      simp only [Script.bytes, List.flatMap_cons, List.length_append]
    rw [size] at inside
    have sound : (m.step env i).Sound env (p + i.bytes.length) (m.RejectsAt env i) :=
      Machine.step_sound h (by omega)
    rw [run, outcome_bind, step_eq h (by omega)]
    rcases first : m.step env i with m' | ⟨stop, m'⟩ <;> simp only [Machine.run, first]
    rw [first] at sound
    exact ih sound.1 (by omega)

/-- **No access is out of range.** Every evaluation, from any stack, is the evaluation by
address, which would break down at an address outside of the stack, a slice outside of the
script, or an offset, count or number that is no word. -/
theorem evaluate_eq (flags : Flags) (checker : Checker) (version : SigVersion) (script : Bytes)
    (stack : Stack Bytes) (journal : Journal) :
    evaluate flags checker version script stack journal =
      Script.evaluate flags checker version script stack journal := by
  simp only [evaluate, Script.evaluate]
  split
  next => rfl
  next short =>
    rw [@run_eq ⟨flags, checker, version, script⟩ _ _ _
      (Machine.start_at stack journal) (Script.zero_add_length_instructions_le script)
      (Nat.le_of_not_lt short)]

end Procedure

end BlockRules
