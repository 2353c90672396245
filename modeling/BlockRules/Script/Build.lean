import BlockRules.Script.Instruction
import BlockRules.Script.Number

/-!
# Building scripts

Bytes for single instructions, in the shortest form there is for each, to be put
together with `++`: `Script.pushData` for data, `Script.pushInt` for numbers. The rule
that a push be the shortest one is `Script.isMinimalPush`.
-/

namespace BlockRules

/-- The opcode that pushes a byte string of the given length. -/
def Opcode.forLength (count : Nat) : UInt8 :=
  if count < 0x4c then UInt8.ofNat count
  else if count ≤ 0xff then Opcode.pushData1
  else if count ≤ 0xffff then Opcode.pushData2
  else Opcode.pushData4

/-- The instruction that pushes a byte string behind its length. -/
def Instruction.push (data : Bytes) : Instruction := ⟨Opcode.forLength data.length, some data⟩

namespace Script

/-- Pushes a byte string behind its length, even where a number opcode would do. -/
def pushData (data : Bytes) : Bytes := (Instruction.push data).bytes

/-- Pushes a number, with an opcode of its own if it has one. -/
def pushInt (v : Int) : Bytes :=
  if v = -1 then [Opcode.negativeOne]
  else if 0 ≤ v ∧ v ≤ 16 then [Opcode.ofSmallInt v.toNat]
  else pushData (ScriptNum.encode v)

/-- An opcode is the shortest way to push the given data. -/
def isMinimalPush (op : UInt8) (data : Bytes) : Bool :=
  match data with
  | [] => op == 0x00
  | [b] => !(1 ≤ b && b ≤ 16) && b != 0x81 && op == 1
  | _ =>
    if data.length ≤ 75 then op.toNat == data.length
    else if data.length ≤ 255 then op == Opcode.pushData1
    else if data.length ≤ 65535 then op == Opcode.pushData2
    else true

/-- What a step of a construction adds to a script. -/
inductive Piece where
  | opcode (op : UInt8)
  | number (v : Int)
  | data (bs : Bytes)
  deriving DecidableEq, Repr

/-- The bytes that a step adds. -/
def Piece.bytes : Piece → Bytes
  | .opcode op => [op]
  | .number v => pushInt v
  | .data bs => pushData bs

/-- The script that a list of steps constructs. -/
def build (pieces : List Piece) : Bytes := pieces.flatMap Piece.bytes

end Script

end BlockRules
