/-!
# Verification flags

Each rule that was added to script verification after the fact has a flag, and a set of
flags is a word of 32 bits. Bits without a rule are kept and mean nothing.
-/

namespace BlockRules

/-- A rule that verification may apply. -/
inductive Flag where
  /-- evaluate the script behind a script hash -/
  | p2sh
  /-- signatures and keys have a known type -/
  | strictEnc
  /-- signatures are strictly DER -/
  | derSig
  /-- signatures use the lower of the two possible values -/
  | lowS
  /-- the extra item that a multi-signature check takes is empty -/
  | nullDummy
  /-- input scripts only push -/
  | sigPushOnly
  /-- pushes and numbers are in their shortest form -/
  | minimalData
  /-- operations reserved for later rules fail -/
  | discourageUpgradableNops
  /-- one item is left in the end -/
  | cleanStack
  | checkLockTimeVerify
  | checkSequenceVerify
  /-- evaluate witness programs -/
  | witness
  /-- witness programs of unknown versions fail -/
  | discourageUpgradableWitnessProgram
  /-- conditions in witness scripts are empty or one -/
  | minimalIf
  /-- a signature that fails is empty -/
  | nullFail
  /-- keys in witness scripts are compressed -/
  | witnessPubkeyType
  | checkColdStakeVerify
  deriving DecidableEq, Repr

/-- The position of a flag in the word. -/
def Flag.position : Flag → Nat
  | .p2sh => 0
  | .strictEnc => 1
  | .derSig => 2
  | .lowS => 3
  | .nullDummy => 4
  | .sigPushOnly => 5
  | .minimalData => 6
  | .discourageUpgradableNops => 7
  | .cleanStack => 8
  | .checkLockTimeVerify => 9
  | .checkSequenceVerify => 10
  | .witness => 11
  | .discourageUpgradableWitnessProgram => 12
  | .minimalIf => 13
  | .nullFail => 14
  | .witnessPubkeyType => 15
  | .checkColdStakeVerify => 16

/-- A set of flags. -/
structure Flags where
  bits : UInt32
  deriving DecidableEq, Repr, Inhabited

namespace Flags

/-- The set of one flag. -/
def single (f : Flag) : Flags := ⟨1 <<< UInt32.ofNat f.position⟩

/-- Every bit of `b` is set in `a`. -/
def contains (a b : Flags) : Bool := a.bits &&& b.bits == b.bits

/-- The flag is in the set. -/
def has (flags : Flags) (f : Flag) : Bool := flags.contains (single f)

/-- The flags of both sets. -/
def union (a b : Flags) : Flags := ⟨a.bits ||| b.bits⟩

/-- The bits of `a` that are not set in `b`. -/
def without (a b : Flags) : Flags := ⟨a.bits &&& ~~~b.bits⟩

/-- The set of some flags. -/
def ofList (fs : List Flag) : Flags := fs.foldl (fun flags f => flags.union (single f)) ⟨0⟩

/-- What every block is held to. -/
def mandatory : Flags := ofList [.p2sh]

/-- What transactions are held to before they are passed on. -/
def standard : Flags :=
  ofList [.p2sh, .derSig, .strictEnc, .minimalData, .nullDummy, .discourageUpgradableNops,
    .cleanStack, .minimalIf, .nullFail, .checkLockTimeVerify, .checkSequenceVerify, .lowS,
    .witness, .discourageUpgradableWitnessProgram, .witnessPubkeyType]

end Flags

end BlockRules
