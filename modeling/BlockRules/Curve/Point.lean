/-!
# The curve secp256k1

The curve `y² = x³ + 7` over the integers modulo a prime `p`, and its group, whose order
is a prime `n`. Points are kept in Jacobian coordinates, where `(x, y, z)` stands for
the point `(x / z², y / z³)` and `z = 0` for the neutral element, so that adding needs no
division.
-/

namespace BlockRules.Curve

/-- The prime of the coordinates, `2 ^ 256 - 2 ^ 32 - 977`. -/
def p : Nat := 0xfffffffffffffffffffffffffffffffffffffffffffffffffffffffefffffc2f

/-- The order of the group. -/
def n : Nat := 0xfffffffffffffffffffffffffffffffebaaedce6af48a03bbfd25e8cd0364141

/-- The difference of two residues. -/
def sub (a b : Nat) : Nat := (a + (p - b)) % p

/-- The power of a residue: one squaring for each of the 256 bits of the exponent, from
the highest down. -/
def power (modulus base exponent : Nat) : Nat :=
  (List.range 256).foldr (fun i acc =>
    let square := acc * acc % modulus
    if exponent.testBit i then square * base % modulus else square) 1

/-- The inverse modulo a prime, by Fermat's theorem. -/
def inverse (modulus a : Nat) : Nat := power modulus a (modulus - 2)

/-- A point in Jacobian coordinates. -/
structure Point where
  (x y z : Nat)
  deriving DecidableEq, Repr

namespace Point

/-- The neutral element. -/
def neutral : Point := ⟨1, 1, 0⟩

/-- The point with the given coordinates. -/
def affine (x y : Nat) : Point := ⟨x, y, 1⟩

/-- The point that generates the group. -/
def generator : Point :=
  affine 0x79be667ef9dcbbac55a06295ce870b07029bfcdb2dce28d959f2815b16f81798
    0x483ada7726a3c4655da4fbfc0e1108a8fd17b448a68554199c47d08ffb10d4b8

/-- The sum of a point and itself. -/
def double (a : Point) : Point :=
  if a.z = 0 ∨ a.y = 0 then neutral
  else
    let yy := a.y * a.y % p
    let s := 4 * a.x * yy % p
    let m := 3 * a.x * a.x % p
    let x := sub (m * m) (2 * s % p)
    let y := sub (m * sub s x) (8 * yy * yy % p)
    ⟨x, y, 2 * a.y * a.z % p⟩

/-- The sum of two points. -/
def add (a b : Point) : Point :=
  if a.z = 0 then b
  else if b.z = 0 then a
  else
    let azz := a.z * a.z % p
    let bzz := b.z * b.z % p
    let u := a.x * bzz % p
    let s := a.y * bzz * b.z % p
    let h := sub (b.x * azz) u
    let r := sub (b.y * azz * a.z) s
    if h = 0 then (if r = 0 then double a else neutral)
    else
      let hh := h * h % p
      let hhh := hh * h % p
      let v := u * hh % p
      let x := sub (sub (r * r) hhh) (2 * v % p)
      let y := sub (r * sub v x) (s * hhh % p)
      ⟨x, y, a.z * b.z * h % p⟩

/-- The sum of `j` times `a` and `k` times `b`, in one pass over the bits of both factors. -/
def combine (j : Nat) (a : Point) (k : Nat) (b : Point) : Point :=
  let both := add a b
  (List.range 256).foldr (fun i acc =>
    let acc := double acc
    match j.testBit i, k.testBit i with
    | true, true => add acc both
    | true, false => add acc a
    | false, true => add acc b
    | false, false => acc) neutral

/-- The first coordinate of a point that is not neutral. -/
def xCoordinate? (a : Point) : Option Nat :=
  if a.z = 0 then none else some (a.x * inverse p (a.z * a.z % p) % p)

end Point

/-- The coordinates satisfy the equation of the curve. -/
def isOnCurve (x y : Nat) : Bool := y * y % p == (x * x % p * x + 7) % p

/-- The second coordinate of the given parity, where the first one has any. -/
def liftX? (x : Nat) (odd : Bool) : Option Nat :=
  let square := (x * x % p * x + 7) % p
  let root := power p square ((p + 1) / 4)
  if root * root % p = square then
    some (if (root % 2 == 1) == odd then root else (p - root) % p)
  else none

end BlockRules.Curve
