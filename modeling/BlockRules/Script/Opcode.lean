/-!
# Opcodes

The bytes a script is made of. Bytes up to `0x4e` push data, and everything else is
an operation with a name, or a byte without meaning. This module holds the names, the
opcodes that scripts are built from, and the two classes of opcodes that are decided
by their number alone: pushes and disabled operations.
-/

namespace BlockRules.Opcode

/-- The push whose length is stated in one byte. -/
def pushData1 : UInt8 := 0x4c
/-- The push whose length is stated in two bytes. -/
def pushData2 : UInt8 := 0x4d
/-- The push whose length is stated in four bytes. -/
def pushData4 : UInt8 := 0x4e
/-- The opcode that pushes minus one. -/
def negativeOne : UInt8 := 0x4f
/-- The opcode that pushes one; the numbers up to sixteen follow it. -/
def one : UInt8 := 0x51
/-- The opcode that pushes sixteen, and the last that counts as a push. -/
def sixteen : UInt8 := 0x60
/-- The opcode `OP_DUP`. -/
def dup : UInt8 := 0x76
/-- The opcode `OP_EQUAL`. -/
def equal : UInt8 := 0x87
/-- The opcode `OP_EQUALVERIFY`. -/
def equalVerify : UInt8 := 0x88
/-- The opcode `OP_HASH160`. -/
def hash160 : UInt8 := 0xa9
/-- The opcode `OP_CODESEPARATOR`. -/
def codeSeparator : UInt8 := 0xab
/-- The opcode `OP_CHECKSIG`. -/
def checkSig : UInt8 := 0xac

/-- The names of the opcodes from `0x4c` to `0xb9`, in order. -/
def names : List String :=
  ["OP_PUSHDATA1", "OP_PUSHDATA2", "OP_PUSHDATA4", "OP_1NEGATE", "OP_RESERVED",
   "OP_1", "OP_2", "OP_3", "OP_4", "OP_5", "OP_6", "OP_7", "OP_8",
   "OP_9", "OP_10", "OP_11", "OP_12", "OP_13", "OP_14", "OP_15", "OP_16",
   "OP_NOP", "OP_VER", "OP_IF", "OP_NOTIF", "OP_VERIF", "OP_VERNOTIF", "OP_ELSE", "OP_ENDIF",
   "OP_VERIFY", "OP_RETURN", "OP_TOALTSTACK", "OP_FROMALTSTACK", "OP_2DROP", "OP_2DUP", "OP_3DUP",
   "OP_2OVER", "OP_2ROT", "OP_2SWAP", "OP_IFDUP", "OP_DEPTH", "OP_DROP", "OP_DUP", "OP_NIP",
   "OP_OVER", "OP_PICK", "OP_ROLL", "OP_ROT", "OP_SWAP", "OP_TUCK",
   "OP_CAT", "OP_SUBSTR", "OP_LEFT", "OP_RIGHT", "OP_SIZE",
   "OP_INVERT", "OP_AND", "OP_OR", "OP_XOR", "OP_EQUAL", "OP_EQUALVERIFY", "OP_RESERVED1",
   "OP_RESERVED2", "OP_1ADD", "OP_1SUB", "OP_2MUL", "OP_2DIV", "OP_NEGATE", "OP_ABS", "OP_NOT",
   "OP_0NOTEQUAL", "OP_ADD", "OP_SUB", "OP_MUL", "OP_DIV", "OP_MOD", "OP_LSHIFT", "OP_RSHIFT",
   "OP_BOOLAND", "OP_BOOLOR", "OP_NUMEQUAL", "OP_NUMEQUALVERIFY", "OP_NUMNOTEQUAL", "OP_LESSTHAN",
   "OP_GREATERTHAN", "OP_LESSTHANOREQUAL", "OP_GREATERTHANOREQUAL", "OP_MIN", "OP_MAX", "OP_WITHIN",
   "OP_RIPEMD160", "OP_SHA1", "OP_SHA256", "OP_HASH160", "OP_HASH256", "OP_CODESEPARATOR",
   "OP_CHECKSIG", "OP_CHECKSIGVERIFY", "OP_CHECKMULTISIG", "OP_CHECKMULTISIGVERIFY",
   "OP_NOP1", "OP_CHECKLOCKTIMEVERIFY", "OP_CHECKSEQUENCEVERIFY", "OP_NOP4", "OP_NOP5", "OP_NOP6",
   "OP_NOP7", "OP_NOP8", "OP_NOP9", "OP_CHECKCOLDSTAKEVERIFY"]

/-- The name of an opcode. Direct pushes and bytes without meaning have none. -/
def name? (op : UInt8) : Option String :=
  if op = 0x00 then some "OP_0"
  else if op = 0xff then some "OP_INVALIDOPCODE"
  else if op < pushData1 then none
  else names[op.toNat - 0x4c]?

/-- The opcode only pushes something. -/
def isPush (op : UInt8) : Bool := op ≤ sixteen

/-- Fails a script wherever it stands, executed or not. -/
def isDisabled (op : UInt8) : Bool :=
  (0x7e ≤ op && op ≤ 0x81) || (0x83 ≤ op && op ≤ 0x86) || op == 0x8d || op == 0x8e
    || (0x95 ≤ op && op ≤ 0x99)

/-- The number from 0 to 16 that an opcode pushes. -/
def smallInt? (op : UInt8) : Option Nat :=
  if op = 0x00 then some 0
  else if one ≤ op ∧ op ≤ sixteen then some (op.toNat - 0x50)
  else none

/-- The opcode that pushes a number from 0 to 16. -/
def ofSmallInt (n : Nat) : UInt8 := if n = 0 then 0x00 else UInt8.ofNat (0x50 + n)

end BlockRules.Opcode
