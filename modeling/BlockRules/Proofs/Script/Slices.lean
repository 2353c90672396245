import Mathlib
import BlockRules.Fault
import BlockRules.Script.Edit

/-!
# Slices

The edits of a script (`BlockRules.Script.Edit`) take it apart by its shape. Here they are
written with offsets into the one script they are given, and every piece is a slice from an
offset up to another one, which is a fault unless the script has both.

* `Bytes.slice` — a slice, and the one case in which it is none;
* `Script.deleteFrom` — the deletion of a pattern as a walk of an offset, and
  `Script.findAndDeleteAt`, which gives the script back as it is if nothing was found;
* `Script.keepFrom` — the same for code separators.

That these walks come to the edits (`Script.findAndDeleteAt_eq`,
`Script.keepFrom_zero_eq`) says that no slice they take is a fault.
-/

namespace BlockRules

namespace Bytes

/-- The bytes from one offset up to, but without, another one. -/
def slice (bs : Bytes) (first last : Nat) : Except Fault Bytes :=
  if first ≤ last ∧ last ≤ bs.length then .ok ((bs.take last).drop first)
  else .error .indexOutOfRange

/-- Bytes that stand at an offset are a slice. -/
theorem slice_of_drop {bs middle rest : Bytes} {first : Nat} (inside : first ≤ bs.length)
    (there : bs.drop first = middle ++ rest) :
    bs.slice first (first + middle.length) = .ok middle := by
  have size : bs.length - first = middle.length + rest.length := by
    rw [← List.length_drop, there, List.length_append]
  rw [slice, if_pos ⟨by omega, by omega⟩, List.drop_take, there, Nat.add_sub_cancel_left,
    List.take_left]

/-- What is left from an offset on is a slice. -/
theorem slice_to_end {bs : Bytes} {first : Nat} (inside : first ≤ bs.length) :
    bs.slice first bs.length = .ok (bs.drop first) := by
  rw [slice, if_pos ⟨inside, Nat.le_refl _⟩, List.take_length]

end Bytes

namespace Script

/-! ## Deleting a pattern -/

variable {script pattern : Bytes}

/-- A pattern stands at an offset. -/
def standsAt (script pattern : Bytes) (offset : Nat) : Except Fault Bool :=
  if script.length < offset then .error .wordOverflow
  else if script.length - offset < pattern.length then .ok false
  else (script.slice offset (offset + pattern.length)).map (· == pattern)

theorem standsAt_eq {offset : Nat} (inside : offset ≤ script.length) :
    standsAt script pattern offset = .ok (pattern.isPrefixOf (script.drop offset)) := by
  rw [standsAt, if_neg (Nat.not_lt_of_le inside)]
  split
  next short =>
    have absent : pattern.isPrefixOf (script.drop offset) = false := by
      rw [Bool.eq_false_iff, ne_eq, List.isPrefixOf_iff_prefix]
      intro found
      have size := found.length_le
      rw [List.length_drop] at size
      omega
    rw [absent]
  next long =>
    rw [Bytes.slice, if_pos ⟨by omega, by omega⟩, List.drop_take,
      Nat.add_sub_cancel_left, Except.map]
    congr 1
    rw [Bool.eq_iff_iff, beq_iff_eq, List.isPrefixOf_iff_prefix, List.prefix_iff_eq_take, eq_comm]

/-- A pattern that stands at an offset ends inside the script. -/
theorem add_le_of_standsAt {offset : Nat} (found : standsAt script pattern offset = .ok true) :
    offset + pattern.length ≤ script.length := by
  rw [standsAt] at found
  split at found
  next => cases found
  next =>
  split at found
  next => cases found
  next => omega

theorem add_le_of_read?_drop {offset : Nat} {i : Instruction} {rest : Bytes}
    (read : Instruction.read? (script.drop offset) = some (i, rest)) :
    offset < script.length ∧ offset + i.bytes.length ≤ script.length := by
  have size := congrArg List.length (Instruction.bytes_read? read)
  have filled : 0 < i.bytes.length := List.length_pos_iff.2 i.bytes_ne_nil
  rw [List.length_drop, List.length_append] at size
  omega

/-- What follows the instruction at an offset. -/
theorem drop_add_of_read?_drop {offset : Nat} {i : Instruction} {rest : Bytes}
    (read : Instruction.read? (script.drop offset) = some (i, rest)) :
    script.drop (offset + i.bytes.length) = rest := by
  rw [← List.drop_drop, Instruction.bytes_read? read, List.drop_left]

/-- Deletes a pattern from an offset on: steps over it as often as it stands there, keeps the
slice up to the end of the next instruction, and goes on from there. -/
def deleteFrom (script pattern : Bytes) (h : pattern ≠ []) (offset : Nat) :
    Except Fault (Bytes × Nat) :=
  match _found : standsAt script pattern offset with
  | .error fault => .error fault
  | .ok true =>
    match deleteFrom script pattern h (offset + pattern.length) with
    | .error fault => .error fault
    | .ok (kept, count) => .ok (kept, count + 1)
  | .ok false =>
    match _read : Instruction.read? (script.drop offset) with
    | none => (script.slice offset script.length).map (·, 0)
    | some (i, _) =>
      match script.slice offset (offset + i.bytes.length) with
      | .error fault => .error fault
      | .ok instruction =>
        match deleteFrom script pattern h (offset + i.bytes.length) with
        | .error fault => .error fault
        | .ok (kept, count) => .ok (instruction ++ kept, count)
termination_by script.length - offset
decreasing_by
  · have inside := add_le_of_standsAt _found
    have pos := List.length_pos_iff.2 h
    omega
  · have inside := add_le_of_read?_drop _read
    have pos := List.length_pos_iff.2 i.bytes_ne_nil
    omega

/-- The script without a pattern, by offsets. -/
def findAndDeleteAt (script pattern : Bytes) : Except Fault (Bytes × Nat) :=
  if h : pattern = [] then .ok (script, 0)
  else (deleteFrom script pattern h 0).map fun (kept, count) =>
    if count = 0 then (script, 0) else (kept, count)

/-- A pattern found at an instruction is dropped, and the search goes on behind it. -/
theorem deletePattern_of_found {h : pattern ≠ []} (found : pattern.isPrefixOf script = true) :
    deletePattern pattern script h =
      ((deletePattern pattern (script.drop pattern.length) h).1,
        (deletePattern pattern (script.drop pattern.length) h).2 + 1) := by
  rw [deletePattern, dif_pos found]

theorem deletePattern_of_read?_none {h : pattern ≠ []}
    (absent : pattern.isPrefixOf script = false)
    (read : Instruction.read? script = none) : deletePattern pattern script h = (script, 0) := by
  rw [deletePattern, dif_neg (Bool.eq_false_iff.1 absent)]
  split
  next => rfl
  next other => cases read.symm.trans other

/-- Where the pattern does not stand, one instruction is copied. -/
theorem deletePattern_of_read?_some {h : pattern ≠ []} {i : Instruction} {rest : Bytes}
    (absent : pattern.isPrefixOf script = false)
    (read : Instruction.read? script = some (i, rest)) :
    deletePattern pattern script h =
      (i.bytes ++ (deletePattern pattern rest h).1, (deletePattern pattern rest h).2) := by
  rw [deletePattern, dif_neg (Bool.eq_false_iff.1 absent)]
  split
  next other => cases read.symm.trans other
  next other =>
    cases read.symm.trans other
    rfl

/-- The walk from an offset deletes the pattern in what stands there. -/
theorem deleteFrom_eq {h : pattern ≠ []} {offset : Nat} (inside : offset ≤ script.length) :
    deleteFrom script pattern h offset = .ok (deletePattern pattern (script.drop offset) h) := by
  -- a fault of the walk contradicts what is known of its pieces; its other cases are the edit's
  fun_induction deleteFrom script pattern h offset with
  | case1 offset fault refused => cases (standsAt_eq inside).symm.trans refused
  | case2 offset found fault refused ih =>
    cases (ih (add_le_of_standsAt found)).symm.trans refused
  | case3 offset found kept count rest ih =>
    have here : pattern.isPrefixOf (script.drop offset) = true :=
      Except.ok.inj ((standsAt_eq inside).symm.trans found)
    have same := Except.ok.inj ((ih (add_le_of_standsAt found)).symm.trans rest)
    rw [deletePattern_of_found here, List.drop_drop, same]
  | case4 offset absent read =>
    have here : pattern.isPrefixOf (script.drop offset) = false :=
      Except.ok.inj ((standsAt_eq inside).symm.trans absent)
    rw [deletePattern_of_read?_none here read, Bytes.slice_to_end inside]
    rfl
  | case5 offset absent i rest read fault refused =>
    cases (Bytes.slice_of_drop inside (Instruction.bytes_read? read)).symm.trans refused
  | case6 offset absent i rest read instruction sliced fault refused ih =>
    cases (ih (add_le_of_read?_drop read).2).symm.trans refused
  | case7 offset absent i rest read instruction sliced kept count others ih =>
    have here : pattern.isPrefixOf (script.drop offset) = false :=
      Except.ok.inj ((standsAt_eq inside).symm.trans absent)
    obtain rfl := Except.ok.inj
      ((Bytes.slice_of_drop inside (Instruction.bytes_read? read)).symm.trans sliced)
    have same := Except.ok.inj ((ih (add_le_of_read?_drop read).2).symm.trans others)
    rw [drop_add_of_read?_drop read] at same
    rw [deletePattern_of_read?_some here read, same]

/-- Where a pattern is not found, nothing is taken away. -/
theorem eq_of_deletePattern {h : pattern ≠ []} {left : Bytes}
    (deleted : deletePattern pattern script h = (left, 0)) : left = script := by
  fun_induction deletePattern pattern script h generalizing left with
  | case1 script found kept count rest ih => cases deleted
  | case2 script absent read => exact (congrArg Prod.fst deleted).symm
  | case3 script absent i rest read kept count others ih =>
    obtain ⟨rfl, rfl⟩ := Prod.mk.inj deleted
    rw [ih others]
    exact (Instruction.bytes_read? read).symm

/-- **No slice of a deletion is out of range.** -/
theorem findAndDeleteAt_eq (script pattern : Bytes) :
    findAndDeleteAt script pattern = .ok (findAndDelete script pattern) := by
  rw [findAndDeleteAt, findAndDelete]
  split
  next => rfl
  next filled =>
    have walked := @deleteFrom_eq script pattern filled 0 (Nat.zero_le _)
    rw [walked, List.drop_zero]
    rcases deleted : deletePattern pattern script filled with ⟨kept, _ | count⟩
    · rw [eq_of_deletePattern deleted]
      rfl
    · rfl

/-! ## Removing code separators -/

/-- Keeps from an offset on the slices of the instructions that are no code separators, and
what follows the last instruction. -/
def keepFrom (script : Bytes) (offset : Nat) : Except Fault Bytes :=
  match _read : Instruction.read? (script.drop offset) with
  | none => script.slice offset script.length
  | some (i, _) =>
    match script.slice offset (offset + i.bytes.length) with
    | .error fault => .error fault
    | .ok instruction =>
      match keepFrom script (offset + i.bytes.length) with
      | .error fault => .error fault
      | .ok kept => .ok (if i.opcode ≠ Opcode.codeSeparator then instruction ++ kept else kept)
termination_by script.length - offset
decreasing_by
  have inside := add_le_of_read?_drop _read
  have pos := List.length_pos_iff.2 i.bytes_ne_nil
  omega

theorem removeCodeSeparators_of_read?_none (read : Instruction.read? script = none) :
    removeCodeSeparators script = script := by
  simp only [removeCodeSeparators, instructions, tail, parse_of_read?_none read]
  rfl

theorem removeCodeSeparators_of_read?_some {i : Instruction} {rest : Bytes}
    (read : Instruction.read? script = some (i, rest)) :
    removeCodeSeparators script =
      if i.opcode ≠ Opcode.codeSeparator then i.bytes ++ removeCodeSeparators rest
      else removeCodeSeparators rest := by
  simp only [removeCodeSeparators, instructions, tail, parse_of_read?_some read, List.filter_cons,
    decide_eq_true_eq]
  split
  next => simp only [bytes, List.flatMap_cons, List.append_assoc]
  next => rfl

/-- Working by offsets into the script is working on the rest of the script. -/
theorem keepFrom_eq {offset : Nat} (inside : offset ≤ script.length) :
    keepFrom script offset = .ok (removeCodeSeparators (script.drop offset)) := by
  fun_induction keepFrom script offset with
  | case1 offset read => rw [removeCodeSeparators_of_read?_none read, Bytes.slice_to_end inside]
  | case2 offset i rest read fault refused =>
    cases (Bytes.slice_of_drop inside (Instruction.bytes_read? read)).symm.trans refused
  | case3 offset i rest read instruction sliced fault refused ih =>
    cases (ih (add_le_of_read?_drop read).2).symm.trans refused
  | case4 offset i rest read instruction sliced kept others ih =>
    obtain rfl := Except.ok.inj
      ((Bytes.slice_of_drop inside (Instruction.bytes_read? read)).symm.trans sliced)
    have same := Except.ok.inj ((ih (add_le_of_read?_drop read).2).symm.trans others)
    rw [drop_add_of_read?_drop read] at same
    rw [removeCodeSeparators_of_read?_some read, same]

/-- **No slice of a removal is out of range.** -/
theorem keepFrom_zero_eq (script : Bytes) :
    keepFrom script 0 = .ok (removeCodeSeparators script) := by
  rw [keepFrom_eq (Nat.zero_le _), List.drop_zero]

end Script

end BlockRules
