import BlockRules.Fault
import BlockRules.Wide

/-!
# Numbers and truth values on the stack

A stack item read as a number is little-endian, with a sign in the top bit of its last
byte; the empty item is zero.

* **value** — `ScriptNum.value` reads any item, minimal or not, negative zero included;
* **reading** — `ScriptNum.decode` also limits the size and may ask for the shortest form;
* **writing** — `ScriptNum.encode` gives the shortest form;
* **truth** — `truthy`: an item is true unless it is a form of zero.
-/

namespace BlockRules

/-- Why a stack item is no number where one is expected. -/
inductive ScriptNumError where
  | overflow (size : Nat)
  | nonMinimal
  | fault (cause : Fault)
  deriving DecidableEq, Repr

namespace ScriptNum

/-- The value in sign and magnitude: the top bit of the last byte is the sign. -/
def value (bs : Bytes) : Int :=
  let n := Bytes.toNat bs
  let sign := 128 <<< (8 * (bs.length - 1))
  if n < sign then n else -((n - sign : Nat) : Int)

/-- The last byte is needed: it holds more than the sign, or the byte before it uses its
own top bit. -/
def isMinimal (bs : Bytes) : Bool :=
  match bs.reverse with
  | [] => true
  | last :: before =>
    last &&& 0x7f != 0 || match before with
      | [] => false
      | b :: _ => b &&& 0x80 != 0

/-- The number an item of at most `maxSize` bytes stands for. No item of more than eight
bytes has one, whatever the limit. -/
def decode (minimal : Bool) (maxSize : Nat) (bs : Bytes) : Except ScriptNumError Int :=
  if maxSize < bs.length then .error (.overflow bs.length)
  else if minimal && !isMinimal bs then .error .nonMinimal
  else if 8 < bs.length then .error (.fault .shiftTooLarge)
  else .ok (value bs)

/-- The shortest form of a number. -/
def encode (v : Int) : Bytes :=
  let magnitude := Bytes.ofNat (byteLength v.natAbs) v.natAbs
  match magnitude.getLast? with
  | none => []
  | some last =>
    if last &&& 0x80 != 0 then magnitude ++ [if v < 0 then 0x80 else 0x00]
    else if v < 0 then magnitude.dropLast ++ [last ||| 0x80]
    else magnitude

/-- The number moved into the range of a signed word of 32 bits. -/
def clamp32 (v : Int) : Int := max (-0x80000000) (min v 0x7fffffff)

end ScriptNum

/-- The wording of a number error. -/
def ScriptNumError.message : ScriptNumError → String
  | .overflow size => s!"script number overflow: {size} bytes"
  | .nonMinimal => "non-minimally encoded script number"
  | .fault cause => cause.message

/-- Some byte is not zero, a lone sign bit in the last one not counted. -/
def truthy : Bytes → Bool
  | [] => false
  | [last] => last != 0 && last != 0x80
  | b :: bs => b != 0 || truthy bs

/-- The item that stands for a truth value. -/
def boolItem (b : Bool) : Bytes := if b then [1] else []

end BlockRules
