import BlockRules.Bytes

/-!
# Hexadecimal text

Bytes are shown as two lower-case digits each, high digit first. Reading takes
digits of either case and works on the UTF-8 bytes of a text, so that what it
rejects is always one byte at one byte position:

* a text of odd length is rejected before any digit is looked at;
* otherwise the first byte that is no digit is named in the error, written as a
  character literal (`showByte`).
-/

namespace BlockRules.Hex

/-- Why a text is no sequence of hexadecimal byte pairs. -/
inductive Error where
  | oddLength
  | badDigit (byte : UInt8) (position : Nat)
  deriving DecidableEq, Repr

/-- The digit that stands for a value below sixteen. -/
def digit (n : Nat) : Char :=
  if n < 10 then Char.ofNat (48 + n) else Char.ofNat (87 + n)

/-- The two digits of a byte. -/
def digits (b : UInt8) : List Char :=
  [digit (b.toNat / 16), digit (b.toNat % 16)]

/-- The characters of the hexadecimal form of a byte string. -/
def chars (bs : Bytes) : List Char := bs.flatMap digits

/-- The hexadecimal form of a byte string. -/
def encode (bs : Bytes) : String := String.ofList (chars bs)

/-- The value of an ASCII digit of either case. -/
def value? (b : UInt8) : Option Nat :=
  let n := b.toNat
  if 48 ≤ n ∧ n ≤ 57 then some (n - 48)
  else if 97 ≤ n ∧ n ≤ 102 then some (n - 87)
  else if 65 ≤ n ∧ n ≤ 70 then some (n - 55)
  else none

/-- Reads pairs of digits, the first of them at the given byte position. -/
def readPairs (position : Nat) : Bytes → Except Error Bytes
  | [] => .ok []
  | [_] => .error .oddLength
  | high :: low :: rest =>
    match value? high, value? low with
    | none, _ => .error (.badDigit high position)
    | some _, none => .error (.badDigit low (position + 1))
    | some h, some l =>
      match readPairs (position + 2) rest with
      | .ok bs => .ok (UInt8.ofNat (16 * h + l) :: bs)
      | .error e => .error e

/-- The bytes that a sequence of digit pairs stands for. -/
def decode (text : Bytes) : Except Error Bytes :=
  if text.length % 2 = 1 then .error .oddLength else readPairs 0 text

/-- The UTF-8 bytes of a text. -/
def utf8 (cs : List Char) : Bytes := cs.flatMap String.utf8EncodeChar

/-- Digits of a number in base sixteen, without leading zeros. -/
def ofNat (n : Nat) : String := String.ofList (Nat.toDigits 16 n)

/-- The number in base sixteen, padded with zeros to the given width. -/
def padded (width n : Nat) : String :=
  let shown := Nat.toDigits 16 n
  String.ofList (List.replicate (width - shown.length) '0' ++ shown)

/-- A byte as a character literal: a short escape where there is one, its number in
braces behind `\u` where it has no visible form, and the character itself otherwise. -/
def showByte (b : UInt8) : String :=
  let n := b.toNat
  let body :=
    if n = 0 then "\\0"
    else if n = 9 then "\\t"
    else if n = 10 then "\\n"
    else if n = 13 then "\\r"
    else if n = 39 then "\\'"
    else if n = 92 then "\\\\"
    else if n < 32 ∨ (127 ≤ n ∧ n ≤ 160) ∨ n = 173 then "\\u\x7b" ++ ofNat n ++ "\x7d"
    else String.singleton (Char.ofNat n)
  "'" ++ body ++ "'"

/-- The wording of a rejection. -/
def Error.message : Error → String
  | .oddLength => "Odd number of digits"
  | .badDigit byte position => s!"Invalid character {showByte byte} at position {position}"

end BlockRules.Hex
