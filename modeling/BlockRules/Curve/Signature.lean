import BlockRules.Fault
import BlockRules.Bytes
import BlockRules.Curve.Point

/-!
# Signatures

A signature is a pair of numbers below the order of the group. On the stack it is a DER
sequence of two integers with the byte of the hash type behind it.

* **strict form** — `isStrictDer` reads the lengths at their places and checks that they
  describe the whole item and that neither integer has a superfluous byte;
* **lax form** — `Signature.ofLaxDer?` accepts everything that older verifiers took for
  DER: lengths in long form, a wrong outer length, and bytes behind the second integer.
  Numbers that are too large make the signature `0, 0`, which never verifies;
* **low form** — of the two values of `s` that verify alike, the one at most half of the
  order.
-/

namespace BlockRules.Curve

/-- A signature: two numbers, both below the order of the group where they verify anything. -/
structure Signature where
  (r s : Nat)
  deriving DecidableEq, Repr

/-- The byte at a position. -/
def byteAt (bs : Bytes) (i : Nat) : Except Fault UInt8 :=
  match bs[i]? with
  | some b => .ok b
  | none => .error .indexOutOfRange

/-- The integer of `size` bytes that starts at `place` in an item is not empty, not
negative, and has no leading zero that is not needed. -/
def isStrictInteger (sig : Bytes) (place size : Nat) : Except Fault Bool := do
  if size = 0 then return false
  let first ← byteAt sig place
  if first &&& 0x80 ≠ 0 then return false
  if 1 < size ∧ first = 0x00 then
    let second ← byteAt sig (place + 1)
    return second &&& 0x80 != 0
  return true

/-- The item is `30 L 02 |R| R 02 |S| S t` with exact lengths and integers in their
shortest form. -/
def isStrictDer (sig : Bytes) : Except Fault Bool := do
  if sig.length < 9 ∨ 73 < sig.length then return false
  if (← byteAt sig 0) ≠ 0x30 then return false
  if (← byteAt sig 1).toNat ≠ sig.length - 3 then return false
  let sizeR := (← byteAt sig 3).toNat
  if sig.length ≤ 5 + sizeR then return false
  let sizeS := (← byteAt sig (5 + sizeR)).toNat
  if sizeR + sizeS + 7 ≠ sig.length then return false
  if (← byteAt sig 2) ≠ 0x02 then return false
  if !(← isStrictInteger sig 4 sizeR) then return false
  if (← byteAt sig (sizeR + 4)) ≠ 0x02 then return false
  isStrictInteger sig (sizeR + 6) sizeS

/-- The content of a DER integer at the front of some bytes, and what follows it. -/
def laxInteger? (bs : Bytes) : Option (Bytes × Bytes) :=
  match bs with
  | 0x02 :: size :: rest =>
    if size &&& 0x80 = 0 then Bytes.split? size.toNat rest
    else
      match Bytes.split? (size.toNat - 0x80) rest with
      | none => none
      | some (lengthBytes, rest) =>
        let lengthBytes := lengthBytes.dropWhile (· = 0)
        if 8 ≤ lengthBytes.length then none
        else Bytes.split? (Bytes.toNat lengthBytes.reverse) rest
  | _ => none

/-- What is inside a DER sequence; its length is skipped and not compared with anything. -/
def laxSequence? (bs : Bytes) : Option Bytes :=
  match bs with
  | 0x30 :: size :: rest =>
    if size &&& 0x80 = 0 then some rest
    else (Bytes.split? (size.toNat - 0x80) rest).map Prod.snd
  | _ => none

namespace Signature

/-- The signature with the given big-endian numbers, or `0, 0` if one is too large. -/
def ofNumbers (r s : Bytes) : Signature :=
  let r := Bytes.toNat r.reverse
  let s := Bytes.toNat s.reverse
  if r < n ∧ s < n then ⟨r, s⟩ else ⟨0, 0⟩

/-- Reads a signature in the lax form. -/
def ofLaxDer? (der : Bytes) : Option Signature :=
  match laxSequence? der with
  | none => none
  | some inside =>
    match laxInteger? inside with
    | none => none
    | some (r, rest) =>
      match laxInteger? rest with
      | none => none
      | some (s, _) => some (ofNumbers r s)

/-- The second number is at most half of the order. -/
def isLow (sig : Signature) : Bool := sig.s ≤ (n - 1) / 2

/-- The form with the low second number. -/
def normalized (sig : Signature) : Signature :=
  if sig.isLow then sig else { sig with s := n - sig.s }

/-- The signature is one of the number `digest` by the key `key`. -/
def verifies (sig : Signature) (key : Point) (digest : Nat) : Bool :=
  if sig.r = 0 ∨ n ≤ sig.r ∨ sig.s = 0 ∨ n ≤ sig.s then false
  else
    let w := inverse n sig.s
    let sum := Point.combine (digest % n * w % n) .generator (sig.r * w % n) key
    match sum.xCoordinate? with
    | none => false
    | some x => x % n == sig.r

end Signature

/-- An item with a hash type byte at its end holds a signature in the low form. -/
def isLowDer (sig : Bytes) : Bool :=
  match Signature.ofLaxDer? sig.dropLast with
  | none => false
  | some signature => signature.isLow

end BlockRules.Curve
