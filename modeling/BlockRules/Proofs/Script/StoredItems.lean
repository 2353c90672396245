import Mathlib
import BlockRules.Script.Stack

/-!
# A stack is a list read backwards

A stack keeps its items in a list, bottom first, and names them from the top. This module says what
the operations on a stack do to that list, whatever is asked and in whatever order.

* **requests** — `Stack.Request` is what a stack can be asked for, with any integers as addresses,
  and `Stack.respond` asks for it. A request that is refused has no effect;
* **items** — `Stack.Request.refusal?` says which addresses are out of range, and
  `Stack.Request.effect` what the others do, by the operations on lists at places counted from the
  bottom. `Stack.Request.onItems` puts them together;
* **step and run** — a stack responds as its items do (`Stack.respond_stored`), and so it does in
  the course of any requests (`Stack.refines_list`).
-/

namespace BlockRules

namespace Stack

variable {α σ : Type}

/-! ## Requests -/

/-- What is asked of a stack. -/
inductive Request (α : Type) where
  | push (item : α)
  | pop
  | top (index : Int)
  | assign (index : Int) (item : α)
  | swap (a b : Int)
  | insert (index : Int) (item : α)
  | remove (index : Int)
  | removeRange (first last : Int)
  | clear

/-- A refusal, or the item that is asked for if it is one. -/
abbrev Answer (α : Type) := Except StackError (Option α)

/-- What a request comes to: the answer and the stack then. -/
def attempt (s : Stack α) : Request α → Except StackError (Option α × Stack α)
  | .push item => .ok (none, item :: s)
  | .pop => (pop? s).map fun (item, rest) => (some item, rest)
  | .top index => (top? s index).map fun item => (some item, s)
  | .assign index item => (set? s index item).map fun t => (none, t)
  | .swap a b => (swap? s a b).map fun t => (none, t)
  | .insert index item => (insert? s index item).map fun t => (none, t)
  | .remove index => (remove? s index).map fun (item, rest) => (some item, rest)
  | .removeRange first last => (removeRange? s first last).map fun t => (none, t)
  | .clear => .ok (none, [])

/-- The answer to a request and the stack behind it, which is the same one if the request is
refused. -/
def respond (s : Stack α) (r : Request α) : Answer α × Stack α :=
  match attempt s r with
  | .ok (item, t) => (.ok item, t)
  | .error e => (.error e, s)

/-- The answers to requests, one after the other, each with what is left behind it. -/
def trace (respond : σ → Request α → Answer α × σ) :
    σ → List (Request α) → List (Answer α × σ)
  | _, [] => []
  | s, r :: rs => respond s r :: trace respond (respond s r).2 rs

/-- What is left behind requests. -/
def after (respond : σ → Request α → Answer α × σ) (s : σ)
    (rs : List (Request α)) : σ :=
  rs.foldl (fun t r => (respond t r).2) s

theorem after_cons {respond : σ → Request α → Answer α × σ} {s : σ} {r : Request α}
    {rs : List (Request α)} :
    after respond s (r :: rs) = after respond (respond s r).2 rs := rfl

/-! ## Items -/

/-- The items of a stack as they are stored, bottom first. -/
def stored (s : Stack α) : List α := s.reverse

/-- The address of one of so many items: `-1` is the last one and `-count` the first one. -/
def Names (count : Nat) (index : Int) : Prop := -count ≤ index ∧ index ≤ -1

instance (count : Nat) (index : Int) : Decidable (Names count index) :=
  inferInstanceAs (Decidable (_ ∧ _))

/-- The place that is addressed, counted from the first of so many items. The place behind the last
one is at `0`. -/
def place (count : Nat) (index : Int) : Nat := (count + index).toNat

namespace Request

/-- Why a request is refused where there are so many items, if it is. An item can be inserted at one
place more than there are items, and a range of items ends behind one of them or at `0`. -/
def refusal? (count : Nat) : Request α → Option StackError
  | .push _ | .clear => none
  | .pop => if 0 < count then none else some (.outOfRange (-1) 0)
  | .top index | .assign index _ | .remove index =>
    if Names count index then none else some (.outOfRange index count)
  | .swap a b =>
    if Names count a then if Names count b then none else some (.outOfRange b count)
    else some (.outOfRange a count)
  | .insert index _ => if Names (count + 1) index then none else some (.outOfRange index count)
  | .removeRange first last =>
    if Names count first ∧ first ≤ last ∧ last ≤ 0 then none
      else some (.badRange first last count)

/-- The item that a request gives and what it makes of the items, if its addresses are in range. -/
def effect (items : List α) : Request α → Option α × List α
  | .push item => (none, items ++ [item])
  | .pop => (items.getLast?, items.dropLast)
  | .top index => (items[place items.length index]?, items)
  | .assign index item => (none, items.set (place items.length index) item)
  | .swap a b => (none, items.swap (place items.length a) (place items.length b))
  | .insert index item => (none, items.insertIdx (place (items.length + 1) index) item)
  | .remove index => (items[place items.length index]?, items.eraseIdx (place items.length index))
  | .removeRange first last =>
    (none, items.take (place items.length first) ++ items.drop (place items.length last))
  | .clear => (none, [])

/-- The answer to a request and the items behind it. -/
def onItems (items : List α) (r : Request α) : Answer α × List α :=
  match r.refusal? items.length with
  | none => (.ok (r.effect items).1, (r.effect items).2)
  | some e => (.error e, items)

end Request

/-! ## Places from both ends -/

section Places

variable {s : Stack α} {i i' j j' : Nat} {item : α}

theorem length_stored (s : Stack α) : s.stored.length = s.length := List.length_reverse

/-- The lower items are those below the upper ones: places from both ends add up to the length. -/
theorem take_stored (places : i + j = s.length) : s.stored.take i = stored (s.drop j) := by
  rw [stored, stored, List.take_reverse, ← places, Nat.add_sub_cancel_left]

theorem drop_stored (places : i + j = s.length) : s.stored.drop i = stored (s.take j) := by
  rw [stored, stored, List.drop_reverse, ← places, Nat.add_sub_cancel_left]

theorem stored_append (s t : Stack α) : stored (s ++ t) = t.stored ++ s.stored :=
  List.reverse_append

theorem stored_cons (item : α) (s : Stack α) : stored (item :: s) = s.stored ++ [item] :=
  List.reverse_cons

/-- The item at a place from the bottom is the one at the place that is left from the top. -/
theorem getElem?_stored (places : i + j + 1 = s.length) : s.stored[i]? = s[j]? :=
  List.getElem?_reverse' places

theorem lt_length_stored (places : i + j + 1 = s.length) : i < s.stored.length := by
  rw [length_stored]
  omega

theorem set_stored (places : i + j + 1 = s.length) :
    s.stored.set i item = stored (s.set j item) := by
  rw [List.set_eq_take_cons_drop _ (lt_length_stored places),
    List.set_eq_take_cons_drop _ (show j < s.length by omega), stored_append,
    stored_cons, take_stored (show i + (j + 1) = s.length from places),
    drop_stored (show i + 1 + j = s.length by omega), List.append_assoc]
  rfl

theorem eraseIdx_stored (places : i + j + 1 = s.length) :
    s.stored.eraseIdx i = stored (s.eraseIdx j) := by
  rw [List.eraseIdx_eq_take_drop_succ, List.eraseIdx_eq_take_drop_succ, stored_append,
    take_stored (show i + (j + 1) = s.length from places),
    drop_stored (show i + 1 + j = s.length by omega)]

theorem swap_stored (places : i + j + 1 = s.length) (places' : i' + j' + 1 = s.length) :
    s.stored.swap i i' = stored ((s.set j s[j']).set j' s[j]) := by
  have first : i < s.stored.length := lt_length_stored places
  have second : i' < s.stored.length := lt_length_stored places'
  have item : s.stored[i] = s[j] := List.getElem_reverse first |>.trans (by congr 1; omega)
  have item' : s.stored[i'] = s[j'] := List.getElem_reverse second |>.trans (by congr 1; omega)
  have places'' : i' + j' + 1 = (s.set j s[j']).length := by rw [List.length_set, places']
  rw [List.swap_eq_of_lt first second, item, item', set_stored places, set_stored places'']

theorem insertIdx_length_append (front behind : List α) (item : α) :
    (front ++ behind).insertIdx front.length item = front ++ item :: behind := by
  induction front with
  | nil => rfl
  | cons first front ih =>
    rw [List.cons_append, List.length_cons, List.insertIdx_succ_cons, ih, List.cons_append]

/-- Inserting at a place from the bottom cuts the stack from the top there. -/
theorem insertIdx_stored (places : i + j = s.length) :
    s.stored.insertIdx i item = stored (s.take j ++ item :: s.drop j) := by
  have front : i = (stored (s.drop j)).length := by
    rw [length_stored, List.length_drop]
    omega
  have parts : s.stored = stored (s.drop j) ++ stored (s.take j) := by
    rw [← stored_append, List.take_append_drop]
  rw [parts, front, insertIdx_length_append, stored_append, stored_cons, List.append_assoc]
  rfl

end Places

/-! ## Addresses -/

section Addresses

variable {s : Stack α} {index : Int}

/-- An address that names an item is the depth that is left from its place. -/
theorem exists_depth? (named : Names s.length index) :
    ∃ d : Fin s.length, depth? s index = .ok d ∧ place s.length index + d + 1 = s.length := by
  obtain ⟨low, high⟩ := named
  refine ⟨⟨index.natAbs - 1, by omega⟩, dif_pos ⟨by omega, by omega⟩, ?_⟩
  rw [place]
  dsimp only
  omega

theorem depth?_of_not_names (away : ¬Names s.length index) :
    depth? s index = .error (.outOfRange index s.length) := by
  refine dif_neg fun inside => away ⟨?_, ?_⟩ <;> omega

end Addresses

/-! ## One request -/

variable {s : Stack α} {r : Request α}

theorem attempt_of_refused {e : StackError} (refused : r.refusal? s.length = some e) :
    attempt s r = .error e := by
  cases r <;> simp only [Request.refusal?, reduceCtorEq, Option.ite_none_left_eq_some,
    Option.some.injEq] at refused
  case pop =>
    obtain ⟨empty, rfl⟩ := refused
    obtain rfl := List.eq_nil_of_length_eq_zero (Nat.eq_zero_of_not_pos empty)
    rfl
  case top index | assign index _ | remove index =>
    obtain ⟨away, rfl⟩ := refused
    simp only [attempt, top?, set?, remove?, depth?_of_not_names away]
    rfl
  case swap a b =>
    -- the second address is looked at only if the first one is good
    split at refused
    next named =>
      obtain ⟨d, found, -⟩ := exists_depth? named
      obtain ⟨away, refused⟩ := Option.ite_none_left_eq_some.1 refused
      obtain rfl := Option.some.inj refused
      simp only [attempt, swap?, found, depth?_of_not_names away]
      rfl
    next away =>
      obtain rfl := Option.some.inj refused
      simp only [attempt, swap?, depth?_of_not_names away]
      rfl
  case insert index item =>
    obtain ⟨away, rfl⟩ := refused
    have outside : ¬(index < 0 ∧ index.natAbs ≤ s.length + 1) :=
      fun inside => away ⟨by omega, by omega⟩
    rw [attempt, insert?, if_neg outside]
    rfl
  case removeRange first last =>
    obtain ⟨away, rfl⟩ := refused
    rw [attempt, removeRange?]
    split
    next ordered =>
      rw [depth?_of_not_names fun named => away ⟨named, ordered⟩]
      rfl
    next => rfl

/-- A request that is not refused has its effect on the stored items. -/
theorem attempt_of_allowed (allowed : r.refusal? s.length = none) :
    ∃ t, attempt s r = .ok ((r.effect s.stored).1, t) ∧ t.stored = (r.effect s.stored).2 := by
  cases r <;> simp only [Request.refusal?, reduceCtorEq, ite_eq_left_iff, imp_false, not_not]
    at allowed <;>
    simp only [Request.effect, length_stored]
  -- nothing is addressed
  case push item => exact ⟨_, rfl, stored_cons item s⟩
  case clear => exact ⟨_, rfl, rfl⟩
  case pop =>
    obtain ⟨item, rest, rfl⟩ := List.exists_cons_of_length_pos allowed
    refine ⟨rest, ?_, ?_⟩
    · rw [stored_cons, List.getLast?_concat]
      rfl
    · rw [stored_cons, List.dropLast_concat]
  -- an item is addressed: its place from the bottom and its depth add up to the length
  case top index =>
    obtain ⟨d, found, places⟩ := exists_depth? allowed
    refine ⟨s, ?_, rfl⟩
    rw [getElem?_stored places, List.getElem?_eq_getElem d.isLt, attempt, top?, found]
    rfl
  case assign index item =>
    obtain ⟨d, found, places⟩ := exists_depth? allowed
    refine ⟨s.set d item, ?_, (set_stored places).symm⟩
    rw [attempt, set?, found]
    rfl
  case remove index =>
    obtain ⟨d, found, places⟩ := exists_depth? allowed
    refine ⟨s.eraseIdx d, ?_, (eraseIdx_stored places).symm⟩
    rw [getElem?_stored places, List.getElem?_eq_getElem d.isLt, attempt, remove?, found]
    rfl
  case swap a b =>
    split at allowed
    next named =>
      split at allowed
      next named' =>
        obtain ⟨d, found, places⟩ := exists_depth? named
        obtain ⟨d', found', places'⟩ := exists_depth? named'
        refine ⟨(s.set d (s.get d')).set d' (s.get d), ?_, (swap_stored places places').symm⟩
        simp only [attempt, swap?, found, found']
        rfl
      next => cases allowed
    next => cases allowed
  -- an insertion may also be above the top item, so there is one place more
  case insert index item =>
    obtain ⟨low, high⟩ := allowed
    have inside : index < 0 ∧ index.natAbs ≤ s.length + 1 := by omega
    have places : place (s.length + 1) index + (index.natAbs - 1) = s.length := by
      rw [place]
      omega
    refine ⟨s.take (index.natAbs - 1) ++ item :: s.drop (index.natAbs - 1), ?_,
      (insertIdx_stored places).symm⟩
    rw [attempt, insert?, if_pos inside]
    rfl
  -- the depth of the first one is a place; the last one is not taken out, and may be none
  case removeRange first last =>
    obtain ⟨named, ordered⟩ := allowed
    obtain ⟨d, found, places⟩ := exists_depth? named
    have places' : place s.length last + last.natAbs = s.length := by
      have low := named.1
      rw [place]
      omega
    refine ⟨s.take last.natAbs ++ s.drop (d + 1), ?_, ?_⟩
    · rw [attempt, removeRange?, if_pos ordered, found]
      rfl
    · rw [stored_append, take_stored (show _ + (d.val + 1) = s.length from places),
        drop_stored places']

/-- A stack responds as its items do. -/
theorem respond_stored (s : Stack α) (r : Request α) :
    Prod.map id stored (respond s r) = r.onItems s.stored := by
  rw [respond, Request.onItems, length_stored]
  rcases refused : r.refusal? s.length with _ | e
  · obtain ⟨t, done, items⟩ := attempt_of_allowed refused
    rw [done]
    exact Prod.ext rfl items
  · rw [attempt_of_refused refused]
    rfl

/-! ## Any requests -/

theorem after_stored (s : Stack α) (rs : List (Request α)) :
    stored (after respond s rs) = after Request.onItems s.stored rs := by
  induction rs generalizing s with
  | nil => rfl
  | cons r rs ih =>
    have step : stored (respond s r).2 = (r.onItems s.stored).2 :=
      congrArg Prod.snd (respond_stored s r)
    rw [after_cons, after_cons, ih, step]

/-- All answers on the way are those of the list. -/
theorem trace_stored (s : Stack α) (rs : List (Request α)) :
    (trace respond s rs).map (Prod.map id stored) = trace Request.onItems s.stored rs := by
  -- by induction on the requests, for all stacks: the items behind the first request are those of
  -- the stack behind it
  induction rs generalizing s with
  | nil => rfl
  | cons r rs ih =>
    rw [trace, trace, List.map_cons, ih, ← respond_stored]
    rfl

/-- **A stack is a list read backwards.** In the course of any requests, from any stack, each answer
and the items that are stored behind it are those that the list of the items gives: what the
operation on the list does if the addresses are in range, and a refusal that leaves all as it is if
they are not. Whatever part of the requests is done, the stack read from its top is the list in
reverse. -/
theorem refines_list (s : Stack α) (rs : List (Request α)) :
    (trace respond s rs).map (Prod.map id stored) = trace Request.onItems s.stored rs ∧
    ∀ count, after respond s (rs.take count) =
      (after Request.onItems s.stored (rs.take count)).reverse := by
  refine ⟨trace_stored s rs, fun count => ?_⟩
  rw [← after_stored, stored, List.reverse_reverse]

/-- The least address of 64 bits is refused, and the rest goes on as before. -/
example :
    trace respond ([4, 3, 2, 1] : Stack Nat) [.remove (-9223372036854775808),
      .removeRange (-3) (-1), .pop] =
    [(.error (.outOfRange (-9223372036854775808) 4), [4, 3, 2, 1]), (.ok none, [4, 1]),
      (.ok (some 4), [1])] := rfl

end Stack

end BlockRules
