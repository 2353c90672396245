import BlockRules.Digest.Blocks

/-!
# RIPEMD-160

The compression function of RIPEMD-160 as a `Digest.Scheme`: two independent lines of
80 rounds over the same block, whose results are added crosswise into the state. It
gives 20 bytes for every message (`length_ripemd160`).
-/

namespace BlockRules

namespace Digest.Ripemd160

/-- The five working words. -/
structure State where
  (a b c d e : UInt32)

/-- The state before the first block. -/
def initial : State := ⟨0x67452301, 0xefcdab89, 0x98badcfe, 0x10325476, 0xc3d2e1f0⟩

/-- One line of rounds: which word of the block each round takes, by how much it
rotates, and the constant of each group of sixteen rounds. -/
structure Line where
  wordOrder : Array Nat
  rotations : Array UInt32
  constants : Array UInt32

/-- The line that takes the words of the block in order first. -/
def leftLine : Line :=
  { wordOrder :=
      #[0, 1, 2, 3, 4, 5, 6, 7, 8, 9, 10, 11, 12, 13, 14, 15,
        7, 4, 13, 1, 10, 6, 15, 3, 12, 0, 9, 5, 2, 14, 11, 8,
        3, 10, 14, 4, 9, 15, 8, 1, 2, 7, 0, 6, 13, 11, 5, 12,
        1, 9, 11, 10, 0, 8, 12, 4, 13, 3, 7, 15, 14, 5, 6, 2,
        4, 0, 5, 9, 7, 12, 2, 10, 14, 1, 3, 8, 11, 6, 15, 13]
    rotations :=
      #[11, 14, 15, 12, 5, 8, 7, 9, 11, 13, 14, 15, 6, 7, 9, 8,
        7, 6, 8, 13, 11, 9, 7, 15, 7, 12, 15, 9, 11, 7, 13, 12,
        11, 13, 6, 7, 14, 9, 13, 15, 14, 8, 13, 6, 5, 12, 7, 5,
        11, 12, 14, 15, 14, 15, 9, 8, 9, 14, 5, 6, 8, 6, 5, 12,
        9, 15, 5, 11, 6, 8, 13, 12, 5, 12, 13, 14, 11, 8, 5, 6]
    constants := #[0x00000000, 0x5a827999, 0x6ed9eba1, 0x8f1bbcdc, 0xa953fd4e] }

/-- The line beside it, with an order, rotations and constants of its own. -/
def rightLine : Line :=
  { wordOrder :=
      #[5, 14, 7, 0, 9, 2, 11, 4, 13, 6, 15, 8, 1, 10, 3, 12,
        6, 11, 3, 7, 0, 13, 5, 10, 14, 15, 8, 12, 4, 9, 1, 2,
        15, 5, 1, 3, 7, 14, 6, 9, 11, 8, 12, 2, 10, 0, 4, 13,
        8, 6, 4, 1, 3, 11, 15, 0, 5, 12, 2, 13, 9, 7, 10, 14,
        12, 15, 10, 4, 1, 5, 8, 7, 6, 2, 13, 14, 0, 3, 9, 11]
    rotations :=
      #[8, 9, 9, 11, 13, 15, 15, 5, 7, 7, 8, 11, 14, 14, 12, 6,
        9, 13, 15, 7, 12, 8, 9, 11, 7, 7, 12, 7, 6, 15, 13, 11,
        9, 7, 15, 11, 8, 6, 6, 14, 12, 13, 5, 14, 13, 13, 7, 5,
        15, 5, 8, 11, 14, 14, 6, 14, 6, 9, 12, 9, 12, 5, 15, 8,
        8, 5, 12, 9, 12, 5, 14, 6, 8, 13, 6, 5, 15, 13, 11, 11]
    constants := #[0x50a28be6, 0x5c4dd124, 0x6d703ef3, 0x7a6d76e9, 0x00000000] }

/-- The five mixing functions. -/
def mix (group : Nat) (x y z : UInt32) : UInt32 :=
  match group with
  | 0 => x ^^^ y ^^^ z
  | 1 => (x &&& y) ||| (~~~x &&& z)
  | 2 => (x ||| ~~~y) ^^^ z
  | 3 => (x &&& z) ||| (y &&& ~~~z)
  | _ => x ^^^ (y ||| ~~~z)

/-- Round `i` of a line, which uses the given mixing function. -/
def round (line : Line) (block : Array UInt32) (group : Nat) (s : State) (i : Nat) : State :=
  let word := block.getD (line.wordOrder.getD i 0) 0
  let total := s.a + mix group s.b s.c s.d + word + line.constants.getD (i / 16) 0
  ⟨s.e, rotateLeft total (line.rotations.getD i 0) + s.e, s.b, rotateLeft s.c 10, s.d⟩

/-- The left line uses the mixing functions in order, the right line in reverse. -/
def compress (s : State) (block : Array UInt32) : State :=
  let rounds := List.range 80
  let left := rounds.foldl (fun t i => round leftLine block (i / 16) t i) s
  let right := rounds.foldl (fun t i => round rightLine block (4 - i / 16) t i) s
  ⟨s.b + left.c + right.d, s.c + left.d + right.e, s.d + left.e + right.a,
   s.e + left.a + right.b, s.a + left.b + right.c⟩

/-- RIPEMD-160: words are read and written with the least significant byte first. -/
def scheme : Scheme State :=
  { bigEndian := false, initial := initial, compress := compress,
    output := fun s => [s.a, s.b, s.c, s.d, s.e] }

end Digest.Ripemd160

/-- The RIPEMD-160 hash of a byte string. -/
def ripemd160 (message : Bytes) : Bytes := Digest.Ripemd160.scheme.digest message

theorem length_ripemd160 (message : Bytes) : (ripemd160 message).length = 20 :=
  Digest.length_flatMap_wordBytes _ _

end BlockRules
