import BlockRules.Fault
import BlockRules.Target

/-!
# Network parameters

What a network fixes about the difficulty of its blocks and the start of its chain, with
the parameters of two networks and the check (`Params.validate`) that rejects parameters
with which the difficulty rule makes no sense.
-/

namespace BlockRules

/-- The parameters of a network. -/
structure Params where
  /-- the easiest target -/
  powLimit : Target
  /-- the seconds that one retarget period should take -/
  targetTimespan : UInt64
  /-- the seconds between two blocks -/
  targetSpacing : UInt64
  /-- a block that comes late may use the easiest target -/
  allowMinDifficulty : Bool := false
  /-- the difficulty never changes -/
  noRetargeting : Bool := false
  /-- the hash of the block at height zero, if it is fixed -/
  genesisHash : Option UInt256 := none
  deriving DecidableEq, Inhabited

/-- Why parameters are rejected. -/
inductive ParamsError where
  | zeroSpacing
  | shortTimespan (timespan spacing : UInt64)
  | invalidLimit (limit : Target)
  deriving DecidableEq, Repr

/-- The wording of a rejection. -/
def ParamsError.message : ParamsError → String
  | .zeroSpacing => "pow_target_spacing must be non-zero"
  | .shortTimespan timespan spacing =>
    s!"pow_target_timespan {timespan.toNat} shorter than one block spacing {spacing.toNat}"
  | .invalidLimit limit => s!"pow_limit {limit.display} is not a valid target"

namespace Params

/-- The main network: two weeks of blocks every ten minutes. -/
def main : Params :=
  { powLimit := ⟨0x1d00ffff⟩
    targetTimespan := 1209600
    targetSpacing := 600
    genesisHash :=
      some (Wide.ofNat 0x000000000019d6689c085ae165831e934ff763ae46a2a6c172b3f1b60a8ce26f) }

/-- The network for regression tests, where blocks are easy and stay so. -/
def regtest : Params :=
  { powLimit := ⟨0x207fffff⟩
    targetTimespan := 1209600
    targetSpacing := 600
    allowMinDifficulty := true
    noRetargeting := true
    genesisHash :=
      some (Wide.ofNat 0x0f9188f13cb7b2c71f2a335e3a4fc328bf5beb436012afca590b1a11466e2206) }

/-- The number of blocks in a retarget period. -/
def interval (params : Params) : Except Fault Nat :=
  if params.targetSpacing = 0 then .error .divisionByZero
  else .ok (params.targetTimespan.toNat / params.targetSpacing.toNat)

/-- Rejects parameters without spacing, with a period shorter than one block, or with a
limit that is no target. -/
def validate (params : Params) : Except ParamsError Unit :=
  if params.targetSpacing = 0 then .error .zeroSpacing
  else if params.targetTimespan < params.targetSpacing then
    .error (.shortTimespan params.targetTimespan params.targetSpacing)
  else if !params.powLimit.inRange then .error (.invalidLimit params.powLimit)
  else .ok ()

end Params

end BlockRules
