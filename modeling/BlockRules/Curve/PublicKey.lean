import BlockRules.Bytes
import BlockRules.Curve.Point

/-!
# Public keys

A public key is a point of the curve, written as a mark byte and big-endian coordinates:
the first one with a mark for the parity of the second, or both of them, with a mark that
may state the parity too. Beside the reader there are the two checks of the mark and the
length alone.
-/

namespace BlockRules.Curve

/-- The point with the given coordinates, if they are reduced and on the curve. -/
def pointAt? (x y : Nat) : Option Point :=
  if x < p ∧ y < p ∧ isOnCurve x y then some (.affine x y) else none

/-- Reads a public key. -/
def publicKey? (key : Bytes) : Option Point :=
  match key with
  | [] => none
  | mark :: body =>
    let x := Bytes.toNat (body.take 32).reverse
    if body.length = 32 ∧ (mark = 2 ∨ mark = 3) then
      if x < p then (liftX? x (mark == 3)).map (Point.affine x) else none
    else if body.length = 64 then
      let y := Bytes.toNat (body.drop 32).reverse
      if mark = 4 then pointAt? x y
      else if mark.toNat = 6 + y % 2 then pointAt? x y
      else none
    else none

/-- A mark for both coordinates or for the parity, and the length that goes with it. -/
def isCompressedOrUncompressed (key : Bytes) : Bool :=
  match key with
  | [] => false
  | mark :: body =>
    if mark = 4 then body.length == 64
    else if mark = 2 ∨ mark = 3 then body.length == 32
    else false

/-- A mark for the parity, and the length that goes with it. -/
def isCompressed (key : Bytes) : Bool :=
  match key with
  | [] => false
  | mark :: body => body.length == 32 && (mark == 2 || mark == 3)

end BlockRules.Curve
