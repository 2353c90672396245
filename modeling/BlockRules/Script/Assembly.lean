import BlockRules.Hex
import BlockRules.Script.Instruction

/-!
# Disassembly

A script as a line of words: pushed data in hexadecimal, operations by name, a mark for
a push that is cut short. Words that are empty, which only pushes of nothing give, are
left out at the front of the line and kept inside it.
-/

namespace BlockRules.Script

/-- The word for one instruction. -/
def word (i : Instruction) : String :=
  match i.data with
  | some data => if i.opcode = 0x00 then "OP_0" else Hex.encode data
  | none => (Opcode.name? i.opcode).getD s!"OP_UNKNOWN<0x{Hex.encode [i.opcode]}>"

/-- The words of a script. -/
def words (script : Bytes) : List String :=
  (instructions script).map word ++ if (tail script).isEmpty then [] else ["[error]"]

/-- The line of words. -/
def assembly (script : Bytes) : String :=
  " ".intercalate ((words script).dropWhile String.isEmpty)

end BlockRules.Script
