import BlockRules.Script.Instruction

/-!
# Editing scripts

Signatures sign the script they stand in, but not every byte of it. Two operations take
bytes out of a script, and both leave an unparsable tail as it is:

* `Script.findAndDelete` removes a pattern wherever it starts at an instruction, several
  times in a row if it has to, and counts the removals;
* `Script.removeCodeSeparators` removes the code separators.
-/

namespace BlockRules.Script

/-- Removes a pattern that is not empty from the front of a script as often as it stands
there, keeps the next instruction, and goes on behind it. -/
def deletePattern (pattern script : Bytes) (h : pattern ≠ []) : Bytes × Nat :=
  if _found : pattern.isPrefixOf script then
    let (kept, count) := deletePattern pattern (script.drop pattern.length) h
    (kept, count + 1)
  else
    match _step : Instruction.read? script with
    | none => (script, 0)
    | some (i, rest) =>
      let (kept, count) := deletePattern pattern rest h
      (i.bytes ++ kept, count)
termination_by script.length
decreasing_by
  · have inside := (List.isPrefixOf_iff_prefix.1 _found).length_le
    have pos := List.length_pos_iff.2 h
    rw [List.length_drop]
    omega
  · exact Instruction.length_lt_of_read? _step

/-- The script without the occurrences of a pattern at its instructions, and their number.
The empty pattern occurs nowhere. -/
def findAndDelete (script pattern : Bytes) : Bytes × Nat :=
  if h : pattern = [] then (script, 0) else deletePattern pattern script h

/-- The script without its code separators. -/
def removeCodeSeparators (script : Bytes) : Bytes :=
  bytes ((instructions script).filter fun i => i.opcode ≠ Opcode.codeSeparator) ++ tail script

end BlockRules.Script
