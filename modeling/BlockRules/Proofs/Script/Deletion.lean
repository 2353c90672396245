import Mathlib
import BlockRules.Proofs.Script.Parsing
import BlockRules.Proofs.Script.Slices

/-!
# What a deletion leaves

`Script.findAndDelete` walks over bytes and compares them with a pattern. If the pattern is a push,
this is a filter on the instructions: a push shows where it ends, so it stands at an instruction
exactly if that instruction is the push (`Script.findAndDelete_pushData`). A pattern that is longer
than the script stands nowhere.

The instructions that are left are read again as they were, and so is the tail behind them
(`Script.parse_bytes_append`). Hence a second deletion finds what was there before the first one,
and deleting several pushes one after the other is one filter as well
(`Script.foldl_findAndDelete`).
-/

namespace BlockRules

namespace Script

variable {script data tail' : Bytes} {is : List Instruction}

/-! ## Instructions put together -/

/-- No instruction can be read off the tail of a script. -/
theorem read?_tail (script : Bytes) : Instruction.read? (tail script) = none := by
  match first : Instruction.read? script with
  | none =>
    rw [tail, parse_of_read?_none first]
    exact first
  | some (i, rest) =>
    have shorter := Instruction.length_lt_of_read? first
    rw [tail_of_read? first]
    exact read?_tail rest
termination_by script.length

/-- The instructions of a script fit. -/
theorem fits_of_mem_instructions {script : Bytes} {i : Instruction}
    (mem : i ∈ instructions script) :
    i.Fits := by
  match first : Instruction.read? script with
  | none =>
    rw [instructions, parse_of_read?_none first] at mem
    cases mem
  | some (j, rest) =>
    have shorter := Instruction.length_lt_of_read? first
    rw [instructions_of_read? first, List.mem_cons] at mem
    rcases mem with rfl | mem
    · exact Instruction.fits_of_read? first
    · exact fits_of_mem_instructions mem
termination_by script.length

/-- Instructions that fit are read back up to a tail that is no instruction. -/
theorem parse_bytes_append (fits : ∀ i ∈ is, i.Fits) (stuck : Instruction.read? tail' = none) :
    parse (bytes is ++ tail') = (is, tail') := by
  induction is with
  | nil => exact parse_of_read?_none stuck
  | cons i is ih =>
    rw [List.forall_mem_cons] at fits
    have first : Instruction.read? (bytes (i :: is) ++ tail') = some (i, bytes is ++ tail') := by
      rw [bytes, List.flatMap_cons, List.append_assoc]
      exact Instruction.read?_bytes fits.1 _
    rw [parse_of_read?_some first, ih fits.2]

/-- The script without the instructions that do not pass. -/
def keep (passes : Instruction → Bool) (script : Bytes) : Bytes :=
  bytes ((instructions script).filter passes) ++ tail script

variable {passes passes' : Instruction → Bool}

/-- What is kept is read as it was. -/
theorem parse_keep (passes : Instruction → Bool) (script : Bytes) :
    parse (keep passes script) = ((instructions script).filter passes, tail script) :=
  parse_bytes_append (fun _ mem => fits_of_mem_instructions (List.mem_filter.1 mem).1)
    (read?_tail script)

/-- Keeping some instructions filters what is parsed. -/
theorem instructions_keep :
    instructions (keep passes script) = (instructions script).filter passes := by
  rw [instructions, parse_keep]

theorem tail_keep : tail (keep passes script) = tail script := by
  rw [tail, parse_keep]

/-- Keeping twice is keeping what passes both times. -/
theorem keep_keep :
    keep passes' (keep passes script) = keep (fun i => passes' i && passes i) script := by
  rw [keep, instructions_keep, tail_keep, List.filter_filter, keep]

theorem keep_of_all (all : ∀ i ∈ instructions script, passes i = true) :
    keep passes script = script := by
  rw [keep, List.filter_eq_self.2 all, bytes_parse]

theorem keep_of_read?_none (read : Instruction.read? script = none) :
    keep passes script = script := by
  refine keep_of_all fun i mem => ?_
  rw [instructions, parse_of_read?_none read] at mem
  cases mem

/-- One instruction is kept or dropped, and the rest is treated alike. -/
theorem keep_of_read?_some {i : Instruction} {rest : Bytes}
    (read : Instruction.read? script = some (i, rest)) :
    keep passes script = if passes i then i.bytes ++ keep passes rest else keep passes rest := by
  rw [keep, instructions_of_read? read, tail_of_read? read, List.filter_cons]
  split
  next => rw [bytes, List.flatMap_cons, List.append_assoc, keep, bytes]
  next => rfl

theorem length_keep_le (passes : Instruction → Bool) (script : Bytes) :
    (keep passes script).length ≤ script.length := by
  have fewer :
      (bytes ((instructions script).filter passes)).Sublist (bytes (instructions script)) :=
    List.filter_sublist.flatMap Instruction.bytes
  conv_rhs => rw [← bytes_parse script]
  rw [keep, List.length_append, List.length_append]
  exact Nat.add_le_add_right fewer.length_le _

/-! ## Deleting a push -/

/-- The instruction is another one than the push of the given data. -/
def isOther (data : Bytes) (i : Instruction) : Bool := i.bytes != pushData data

theorem pushData_ne_nil (data : Bytes) : pushData data ≠ [] :=
  (Instruction.push data).bytes_ne_nil

theorem length_le_length_pushData (data : Bytes) : data.length ≤ (pushData data).length := by
  show data.length ≤ (Opcode.forLength data.length :: (_ ++ data)).length
  rw [List.length_cons, List.length_append]
  omega

/-- A push stands at the front of a script exactly if it is the first instruction, unless its length
cannot be stated; but then it is longer than any script that is at hand. -/
theorem pushData_prefix_iff (stated : data.length < 2 ^ 32 ∨ script.length < data.length) :
    pushData data <+: script ↔
      ∃ i rest, Instruction.read? script = some (i, rest) ∧ i.bytes = pushData data := by
  constructor
  · rintro ⟨behind, rfl⟩
    rcases stated with short | long
    · exact ⟨.push data, behind,
        Instruction.read?_bytes (Instruction.fits_push short) behind, rfl⟩
    · have inside := length_le_length_pushData data
      rw [List.length_append] at long
      omega
  · rintro ⟨i, rest, read, same⟩
    exact ⟨rest, same ▸ (Instruction.bytes_read? read).symm⟩

/-- Deleting a push keeps the other instructions, and counts those that it takes out. -/
theorem deletePattern_pushData (stated : data.length < 2 ^ 32 ∨ script.length < data.length) :
    deletePattern (pushData data) script (pushData_ne_nil data) =
      (keep (isOther data) script, (instructions script).countP fun i => !isOther data i) := by
  fun_induction deletePattern (pushData data) script (pushData_ne_nil data) with
  | case1 script found kept count others ih =>
    obtain ⟨i, rest, read, same⟩ :=
      (pushData_prefix_iff stated).1 (List.isPrefixOf_iff_prefix.1 found)
    have gone : isOther data i = false := by rw [isOther, same, bne_self_eq_false]
    have behind : script.drop (pushData data).length = rest := by
      rw [Instruction.bytes_read? read, same, List.drop_left]
    have shorter := Instruction.length_lt_of_read? read
    rw [others, behind] at ih
    obtain ⟨rfl, rfl⟩ := Prod.mk.inj (ih (stated.imp_right shorter.trans))
    rw [keep_of_read?_some read, instructions_of_read? read, List.countP_cons, gone]
    rfl
  | case2 script absent read =>
    rw [keep_of_read?_none read, instructions, parse_of_read?_none read, List.countP_nil]
  | case3 script absent i rest read kept count others ih =>
    have stays : isOther data i = true := by
      rw [isOther, bne_iff_ne]
      intro same
      exact absent
        (List.isPrefixOf_iff_prefix.2 ((pushData_prefix_iff stated).2 ⟨i, rest, read, same⟩))
    have shorter := Instruction.length_lt_of_read? read
    rw [others] at ih
    obtain ⟨rfl, rfl⟩ := Prod.mk.inj (ih (stated.imp_right shorter.trans))
    rw [keep_of_read?_some read, instructions_of_read? read, List.countP_cons, stays]
    rfl

/-- **Deleting a push is a filter on instructions.** -/
theorem findAndDelete_pushData (stated : data.length < 2 ^ 32 ∨ script.length < data.length) :
    findAndDelete script (pushData data) =
      (keep (isOther data) script, (instructions script).countP fun i => !isOther data i) := by
  rw [findAndDelete, dif_neg (pushData_ne_nil data), deletePattern_pushData stated]

/-- So is deleting several pushes one after the other: no deletion brings up a push that an earlier
one has deleted. -/
theorem foldl_findAndDelete {sigs : List Bytes}
    (stated : ∀ sig ∈ sigs, sig.length < 2 ^ 32 ∨ script.length < sig.length) :
    sigs.foldl (fun code sig => (findAndDelete code (pushData sig)).1) script =
      keep (fun i => sigs.all fun sig => isOther sig i) script := by
  induction sigs generalizing script with
  | nil => exact (keep_of_all fun _ _ => rfl).symm
  | cons sig sigs ih =>
    rw [List.forall_mem_cons] at stated
    have shorter := length_keep_le (isOther sig) script
    rw [List.foldl_cons, findAndDelete_pushData stated.1,
      ih fun other mem => (stated.2 other mem).imp_right shorter.trans_lt, keep_keep]
    congr 1
    funext i
    rw [List.all_cons, Bool.and_comm]

end Script

end BlockRules
