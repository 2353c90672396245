import Mathlib
import BlockRules.Proofs.Script.Deletion

/-!
# Edits as filters

Both edits of a script leave out some of its instructions and keep all others, and the tail behind
them. A deletion is one if the pattern is a push (`Script.findAndDelete_pushData`); the removal of
code separators is another one (`Script.removeCodeSeparators_eq_keep`). What is kept is read as it
was, so filters can be made in any order, and a second time without effect (`Script.keep_comm`,
`Script.keep_of_le`).

A pattern that is no push can end within an instruction, and then what follows it is read anew. Even
so every byte of a script is kept or belongs to an occurrence that is counted
(`Script.length_findAndDelete`).
-/

namespace BlockRules

theorem Instruction.head?_bytes (i : Instruction) : i.bytes.head? = some i.opcode := by
  rcases i with ⟨op, _ | data⟩ <;> rfl

namespace Script

variable {script data pattern : Bytes} {passes passes' : Instruction → Bool}

/-! ## Filters -/

/-- The order of two filters does not matter. -/
theorem keep_comm : keep passes (keep passes' script) = keep passes' (keep passes script) := by
  rw [keep_keep, keep_keep]
  congr 1
  funext i
  exact Bool.and_comm _ _

/-- A filter has no effect on what passed a stronger one. -/
theorem keep_of_le (stronger : ∀ i, passes i = true → passes' i = true) :
    keep passes' (keep passes script) = keep passes script := by
  refine keep_of_all fun i mem => ?_
  rw [instructions_keep, List.mem_filter] at mem
  exact stronger i mem.2

/-- A filter takes none of the instructions that it would have to count away from another one. -/
theorem countP_keep (counted : ∀ i, passes' i = true → passes i = true) :
    (instructions (keep passes script)).countP passes' = (instructions script).countP passes' := by
  rw [instructions_keep, List.countP_filter]
  congr 1
  funext i
  rw [Bool.and_eq_left_iff_imp]
  exact counted i

/-! ## The two edits -/

/-- The instruction is no code separator. -/
def isNoSeparator (i : Instruction) : Bool := i.opcode != Opcode.codeSeparator

theorem removeCodeSeparators_eq_keep (script : Bytes) :
    removeCodeSeparators script = keep isNoSeparator script := by
  rw [removeCodeSeparators, keep]
  congr 3
  funext i
  rw [isNoSeparator, Bool.eq_iff_iff, decide_eq_true_iff, bne_iff_ne]

/-- A push is no code separator. -/
theorem isNoSeparator_of_bytes_eq {i : Instruction} (push : i.bytes = pushData data) :
    isNoSeparator i = true := by
  have opcode : i.opcode = Opcode.forLength data.length := by
    have first := congrArg List.head? push
    rw [i.head?_bytes, pushData, Instruction.head?_bytes] at first
    exact Option.some.inj first
  rw [isNoSeparator, bne_iff_ne]
  intro separator
  have small := Opcode.isPush_forLength data.length
  rw [← opcode, separator] at small
  exact absurd small (by decide)

/-- Where a push was deleted, there is none left. -/
theorem findAndDelete_findAndDelete (short : data.length < 2 ^ 32) :
    findAndDelete (findAndDelete script (pushData data)).1 (pushData data) =
      ((findAndDelete script (pushData data)).1, 0) := by
  rw [@findAndDelete_pushData script data (.inl short), findAndDelete_pushData (.inl short),
    keep_of_le fun _ passed => passed, Prod.mk.injEq, List.countP_eq_zero, instructions_keep]
  refine ⟨rfl, fun i mem => ?_⟩
  rw [(List.mem_filter.1 mem).2]
  exact Bool.false_ne_true

/-- Deletion and removal can change places, and as much is deleted. -/
theorem findAndDelete_removeCodeSeparators (short : data.length < 2 ^ 32) :
    findAndDelete (removeCodeSeparators script) (pushData data) =
      (removeCodeSeparators (findAndDelete script (pushData data)).1,
        (findAndDelete script (pushData data)).2) := by
  rw [findAndDelete_pushData (.inl short), findAndDelete_pushData (.inl short),
    removeCodeSeparators_eq_keep, removeCodeSeparators_eq_keep, keep_comm, countP_keep]
  intro i gone
  rw [Bool.not_eq_true', isOther, bne_eq_false_iff_eq] at gone
  exact isNoSeparator_of_bytes_eq gone

/-- Deletions of several pushes leave the same script in every order. -/
theorem foldl_findAndDelete_perm {sigs sigs' : List Bytes} (perm : sigs.Perm sigs')
    (stated : ∀ sig ∈ sigs, sig.length < 2 ^ 32 ∨ script.length < sig.length) :
    sigs.foldl (fun code sig => (findAndDelete code (pushData sig)).1) script =
      sigs'.foldl (fun code sig => (findAndDelete code (pushData sig)).1) script := by
  rw [foldl_findAndDelete stated,
    foldl_findAndDelete fun sig mem => stated sig (perm.mem_iff.2 mem)]
  congr 1
  funext i
  exact perm.all_eq

/-- Deletion gives up whole patterns and nothing else. -/
theorem length_deletePattern (filled : pattern ≠ []) :
    (deletePattern pattern script filled).1.length +
      (deletePattern pattern script filled).2 * pattern.length = script.length := by
  fun_induction deletePattern pattern script filled with
  | case1 script found kept count rest ih =>
    have inside := (List.isPrefixOf_iff_prefix.1 found).length_le
    rw [rest, List.length_drop] at ih
    dsimp only at ih ⊢
    rw [Nat.add_mul, Nat.one_mul]
    omega
  | case2 script absent read => rw [Nat.zero_mul, Nat.add_zero]
  | case3 script absent i rest read kept count others ih =>
    have whole := congrArg List.length (Instruction.bytes_read? read)
    rw [others] at ih
    dsimp only at ih ⊢
    rw [List.length_append] at whole ⊢
    omega

/-- What is missing in length is accounted for by the deletions. -/
theorem length_findAndDelete (script pattern : Bytes) :
    (findAndDelete script pattern).1.length + (findAndDelete script pattern).2 * pattern.length =
      script.length := by
  rw [findAndDelete]
  split
  next empty => rw [Nat.zero_mul, Nat.add_zero]
  next filled => exact length_deletePattern filled

/-! ## Both together -/

/-- **Edits are filters.** Take any script: its instructions, one after the other, and the tail at
which reading stops.

* Deleting a push leaves the instructions whose bytes are not that push, followed by the tail, and
  counts the others. A second deletion finds nothing.
* Removing the code separators leaves the instructions with another opcode, followed by the tail. A
  second removal changes nothing.
* The two edits can change places, and the deletions of several pushes can be made in any order.
  This takes no bound on pushes that are longer than the script.
* What the deletion of any pattern leaves and the occurrences that it counts have the length of the
  script together.

The walks along the script by offsets come to these results, and none of their slices is out of
range. -/
theorem edits_filter_instructions (script : Bytes) :
    (script = bytes (instructions script) ++ tail script ∧
      Instruction.read? (tail script) = none) ∧
    (∀ data : Bytes, data.length < 2 ^ 32 →
      findAndDelete script (pushData data) =
          (bytes ((instructions script).filter fun i => i.bytes != pushData data) ++ tail script,
            (instructions script).countP fun i => i.bytes == pushData data) ∧
        findAndDelete (findAndDelete script (pushData data)).1 (pushData data) =
          ((findAndDelete script (pushData data)).1, 0) ∧
        findAndDelete (removeCodeSeparators script) (pushData data) =
          (removeCodeSeparators (findAndDelete script (pushData data)).1,
            (findAndDelete script (pushData data)).2)) ∧
    (keepFrom script 0 = .ok (removeCodeSeparators script) ∧
      removeCodeSeparators script =
        bytes ((instructions script).filter fun i => i.opcode != Opcode.codeSeparator) ++
          tail script ∧
      removeCodeSeparators (removeCodeSeparators script) = removeCodeSeparators script) ∧
    (∀ sigs sigs' : List Bytes,
      (∀ sig ∈ sigs, sig.length < 2 ^ 32 ∨ script.length < sig.length) → sigs.Perm sigs' →
      sigs.foldl (fun code sig => (findAndDelete code (pushData sig)).1) script =
        sigs'.foldl (fun code sig => (findAndDelete code (pushData sig)).1) script) ∧
    ∀ pattern : Bytes,
      findAndDeleteAt script pattern = .ok (findAndDelete script pattern) ∧
        (findAndDelete script pattern).1.length +
            (findAndDelete script pattern).2 * pattern.length =
          script.length := by
  have removed := removeCodeSeparators_eq_keep script
  refine ⟨⟨(bytes_parse script).symm, read?_tail script⟩, fun data short => ⟨?_, ?_, ?_⟩,
    ⟨keepFrom_zero_eq script, removed, ?_⟩, fun sigs sigs' stated perm => ?_,
    fun pattern => ⟨findAndDeleteAt_eq script pattern, length_findAndDelete script pattern⟩⟩
  · rw [findAndDelete_pushData (.inl short)]
    congr 2
    funext i
    exact Bool.not_not _
  · exact findAndDelete_findAndDelete short
  · exact findAndDelete_removeCodeSeparators short
  · rw [removeCodeSeparators_eq_keep, removed, keep_of_le fun _ passed => passed]
  · exact foldl_findAndDelete_perm perm stated

/-- A push that stands by itself, inside of another push and twice in a row, with a code separator,
a push of that very byte, and a push that is cut short. -/
theorem pushes_and_separators_filtered :
    let script : Bytes :=
      [0x02, 0xaa, 0xbb, 0xab, 0x03, 0x02, 0xaa, 0xbb, 0x02, 0xaa, 0xbb, 0x02, 0xaa, 0xbb,
       0x01, 0xab, 0x02, 0xaa]
    findAndDelete script (pushData [0xaa, 0xbb]) =
        ([0xab, 0x03, 0x02, 0xaa, 0xbb, 0x01, 0xab, 0x02, 0xaa], 3) ∧
      removeCodeSeparators (findAndDelete script (pushData [0xaa, 0xbb])).1 =
        [0x03, 0x02, 0xaa, 0xbb, 0x01, 0xab, 0x02, 0xaa] ∧
      (findAndDelete (removeCodeSeparators script) (pushData [0xaa, 0xbb])).1 =
        removeCodeSeparators (findAndDelete script (pushData [0xaa, 0xbb])).1 ∧
      [[0xab], [0xaa, 0xbb]].foldl (fun code sig => (findAndDelete code (pushData sig)).1) script =
        [[0xaa, 0xbb], [0xab]].foldl
          (fun code sig => (findAndDelete code (pushData sig)).1) script := by
  intro script
  obtain ⟨-, deleted, ⟨-, removed, -⟩, ordered, -⟩ := edits_filter_instructions script
  obtain ⟨left, -, swapped⟩ := deleted [0xaa, 0xbb] (by decide)
  have left : findAndDelete script (pushData [0xaa, 0xbb]) =
      ([0xab, 0x03, 0x02, 0xaa, 0xbb, 0x01, 0xab, 0x02, 0xaa], 3) := left.trans (by decide +kernel)
  refine ⟨left, ?_, congrArg Prod.fst swapped,
    ordered [[0xab], [0xaa, 0xbb]] [[0xaa, 0xbb], [0xab]] (by decide) (List.Perm.swap ..)⟩
  rw [left, (edits_filter_instructions _).2.2.1.2.1]
  decide +kernel

end Script

end BlockRules
