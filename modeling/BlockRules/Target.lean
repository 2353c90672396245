import BlockRules.Fault
import BlockRules.Wide

/-!
# Compact difficulty targets

A header states the bound its hash must stay below in a compact form of 32 bits: one
exponent byte and a mantissa of three bytes, whose top bit is a sign.

* **decoding** — `Target.toInt` is `± mantissa * 256 ^ (exponent - 3)`; an exponent
  below three drops low bytes, and a mantissa that vanishes has no sign;
* **encoding** — `Target.ofInt?` keeps the leading bytes of a number, one byte fewer
  when its top bit would be read as the sign; `Target.ofUInt256` does the same on
  words. The encoder of numbers counts their bytes in a word of 32 bits, and the place
  of the leading bytes is worked out in another one, which may overflow;
* **proof of work** — a hash meets a target if it is at most its value, for a value
  strictly between zero and `2 ^ 256` (`Target.inRange`, `Target.isMetBy`); the
  expected number of hashes that takes is `Target.blockProof`.

Negative and oversized targets are met by nothing, but decode exactly.
-/

namespace BlockRules

/-- A compact target as a header carries it. -/
structure Target where
  compact : UInt32
  deriving DecidableEq, Repr, Inhabited

/-- Why the encoder gives no compact form of a number. -/
inductive CompactError where
  /-- the size takes more than the byte there is for it -/
  | format (cause : FormatError)
  /-- the place of the leading bytes is no word -/
  | fault (cause : Fault)
  deriving DecidableEq, Repr

/-- Why a target has no value of 256 bits. -/
inductive TargetError where
  | negative (target : Target)
  | overflow (target : Target)
  deriving DecidableEq, Repr

namespace Target

/-- The compact form in hexadecimal. -/
def display (t : Target) : String := "0x" ++ Hex.padded 8 t.compact.toNat

/-- The display form with the type's name around it. -/
def named (t : Target) : String := s!"Target({t.display})"

/-- The size in bytes of the value, as the compact form states it. -/
def exponent (t : Target) : Nat := t.compact.toNat / 0x1000000

/-- The 23 bits of the mantissa below the sign. -/
def mantissa (t : Target) : Nat := t.compact.toNat % 0x800000

/-- The sign bit, whether or not the value is zero. -/
def signBit (t : Target) : Bool := t.compact.toNat / 0x800000 % 2 = 1

/-- The absolute value. -/
def magnitude (t : Target) : Nat :=
  if t.exponent ≤ 3 then t.mantissa >>> (8 * (3 - t.exponent))
  else t.mantissa <<< (8 * (t.exponent - 3))

/-- The value: the mantissa scaled by the exponent, with its sign. -/
def toInt (t : Target) : Int :=
  if t.signBit then -(t.magnitude : Int) else t.magnitude

/-- The form stands for a number below zero. -/
def isNegative (t : Target) : Bool := t.toInt < 0

/-- The three leading bytes of a number that has so many bytes, cut to a word. The place
they are taken from is worked out in a word as well. -/
def leading? (magnitude : Nat) (size : UInt32) : Except Fault UInt32 :=
  if size ≤ 3 then .ok (UInt32.ofNat (magnitude <<< (8 * (3 - size.toNat))))
  else do
    let place ← unsigned32 (8 * (size.toNat - 3))
    return UInt32.ofNat (magnitude >>> place)

/-- The size and the leading bytes of a number: the fields of its compact form, with the
top mantissa bit kept free for the sign. The size is the number of bytes cut to a word. -/
def fields? (magnitude : Nat) : Except Fault (UInt32 × UInt32) :=
  let size := UInt32.ofNat (byteLength magnitude)
  match leading? magnitude size with
  | .error cause => .error cause
  | .ok leading =>
    if leading &&& 0x00800000 ≠ 0 then .ok (size + 1, leading >>> 8) else .ok (size, leading)

/-- The compact form of a number; one whose size needs more than a byte has none. -/
def ofInt? (v : Int) : Except CompactError Target :=
  match fields? v.natAbs with
  | .error cause => .error (.fault cause)
  | .ok (size, leading) =>
    if 0xff < size then .error (.format (.targetSize size.toNat))
    else
      let compact := leading ||| (size <<< 24)
      if v < 0 ∧ compact &&& 0x007fffff ≠ 0 then .ok ⟨compact ||| 0x00800000⟩
        else .ok ⟨compact⟩

/-- The compact form of a 256-bit value, computed on its words. -/
def ofUInt256 (v : UInt256) : Target :=
  let size := (v.bitLength + 7) / 8
  let leading :=
    if size ≤ 3 then (v.low64 <<< UInt64.ofNat (8 * (3 - size))).toUInt32
    else (v.shiftRight (UInt32.ofNat (8 * (size - 3)))).low64.toUInt32
  if leading &&& 0x00800000 ≠ 0 then ⟨(leading >>> 8) ||| (UInt32.ofNat (size + 1) <<< 24)⟩
  else ⟨leading ||| (UInt32.ofNat size <<< 24)⟩

/-- The value as a number of 256 bits. -/
def toUInt256? (t : Target) : Except TargetError UInt256 :=
  if t.toInt < 0 then .error (.negative t)
  else match Wide.ofNat? t.toInt.natAbs with
    | .ok v => .ok v
    | .error _ => .error (.overflow t)

/-- The value lies strictly between zero and `2 ^ 256`, where proof of work has a meaning. -/
def inRange (t : Target) : Bool := 0 < t.toInt && bitLength t.toInt.natAbs ≤ 256

/-- A hash is good enough for the target. -/
def isMetBy (t : Target) (hash : UInt256) : Bool :=
  t.inRange && match t.toUInt256? with
    | .ok limit => hash.le limit
    | .error _ => false

/-- The number of different hashes, `2 ^ 256`. -/
def hashCount : Nat := 1 <<< 256

/-- The expected number of hashes it takes to meet the target; none for a target that
no hash meets. -/
def blockProof (t : Target) : Nat :=
  if t.inRange then hashCount / (t.toInt.natAbs + 1) else 0

/-- The compact form of the target of difficulty one. -/
def difficultyOne : Target := ⟨0x1d00ffff⟩

/-- The difficulty relative to `difficultyOne`: one division of the mantissas, then one
factor of 256 for every step between the exponents. The sign bit counts as mantissa. -/
def difficulty (t : Target) : Float :=
  let mantissa := t.compact.toNat % 0x1000000
  if mantissa = 0 then 1.0 / 0.0
  else
    let unit := difficultyOne.exponent
    let ratio := Float.ofNat (difficultyOne.compact.toNat % 0x1000000) / Float.ofNat mantissa
    let raised := Nat.repeat (· * 256.0) (unit - t.exponent) ratio
    Nat.repeat (· / 256.0) (t.exponent - unit) raised

end Target

/-- The wording of a target error. -/
def TargetError.message : TargetError → String
  | .negative target => s!"negative target {target.display}"
  | .overflow target => s!"target {target.display} overflows 256 bits"

end BlockRules
