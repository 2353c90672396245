import BlockRules.Digest.Blocks

/-!
# SHA-1

The compression function of SHA-1 as a `Digest.Scheme`, and `sha1` itself, which
gives 20 bytes for every message (`length_sha1`). Only one script opcode uses it.
-/

namespace BlockRules

namespace Digest.Sha1

/-- The five working words. -/
structure State where
  (a b c d e : UInt32)

/-- The state before the first block. -/
def initial : State := ⟨0x67452301, 0xefcdab89, 0x98badcfe, 0x10325476, 0xc3d2e1f0⟩

/-- The sixteen words of a block followed by the 64 words derived from them. -/
def schedule (block : Array UInt32) : Array UInt32 :=
  (List.range 64).foldl (fun w i =>
    let mixed := w.getD i 0 ^^^ w.getD (i + 2) 0 ^^^ w.getD (i + 8) 0 ^^^ w.getD (i + 13) 0
    w.push (rotateLeft mixed 1)) block

/-- The function of three words and the constant that a round uses: choice, parity,
majority and parity again, for twenty rounds each. -/
def stage (i : Nat) (b c d : UInt32) : UInt32 × UInt32 :=
  if i < 20 then ((b &&& c) ||| (~~~b &&& d), 0x5a827999)
  else if i < 40 then (b ^^^ c ^^^ d, 0x6ed9eba1)
  else if i < 60 then ((b &&& c) ||| (b &&& d) ||| (c &&& d), 0x8f1bbcdc)
  else (b ^^^ c ^^^ d, 0xca62c1d6)

/-- One round with its word of the schedule. -/
def round (s : State) (i : Nat) (word : UInt32) : State :=
  let (mixed, constant) := stage i s.b s.c s.d
  ⟨rotateLeft s.a 5 + mixed + s.e + constant + word, s.a, rotateLeft s.b 30, s.c, s.d⟩

/-- 80 rounds, added to the state they started from. -/
def compress (s : State) (block : Array UInt32) : State :=
  let ws := schedule block
  let t := (List.range 80).foldl (fun t i => round t i (ws.getD i 0)) s
  ⟨s.a + t.a, s.b + t.b, s.c + t.c, s.d + t.d, s.e + t.e⟩

/-- SHA-1: words are read and written with the most significant byte first. -/
def scheme : Scheme State :=
  { bigEndian := true, initial := initial, compress := compress,
    output := fun s => [s.a, s.b, s.c, s.d, s.e] }

end Digest.Sha1

/-- The SHA-1 hash of a byte string. -/
def sha1 (message : Bytes) : Bytes := Digest.Sha1.scheme.digest message

theorem length_sha1 (message : Bytes) : (sha1 message).length = 20 :=
  Digest.length_flatMap_wordBytes _ _

end BlockRules
