import BlockRules.Digest
import BlockRules.Script.Build

/-!
# Script templates

The shapes of output scripts that verification knows: outputs to a script hash, which
are satisfied by the script itself, and witness programs, which are satisfied by a
witness. Besides the constructors of these shapes there is the one of the script that
stands behind a witness program for a key hash.
-/

namespace BlockRules.Script

/-- Checks a signature by the key with the given hash. -/
def payToKeyHash (hash : UInt160) : Bytes :=
  [Opcode.dup, Opcode.hash160] ++ pushData hash.bytesLE ++ [Opcode.equalVerify, Opcode.checkSig]

/-- Asks for a script with the given hash. -/
def payToScriptHash (hash : UInt160) : Bytes :=
  [Opcode.hash160] ++ pushData hash.bytesLE ++ [Opcode.equal]

/-- The witness program of version zero for the key with the given hash. -/
def payToWitnessKeyHash (hash : UInt160) : Bytes := [0x00] ++ pushData hash.bytesLE

/-- The witness program of version zero for a script. -/
def payToWitnessScript (script : Bytes) : Bytes := [0x00] ++ pushData (sha256 script)

/-- The script has the shape of `payToScriptHash`. -/
def isPayToScriptHash (script : Bytes) : Bool :=
  script.length == 23 && script[0]? == some Opcode.hash160 && script[1]? == some 0x14
    && script[22]? == some Opcode.equal

/-- The version and the program of a script that pushes a number from 0 to 16 and then
between 2 and 40 bytes directly. -/
def witnessProgram? (script : Bytes) : Option (Nat × Bytes) :=
  match script with
  | version :: size :: program =>
    if 2 ≤ program.length ∧ program.length ≤ 40 ∧ size.toNat = program.length then
      (Opcode.smallInt? version).map fun v => (v, program)
    else none
  | _ => none

end BlockRules.Script
