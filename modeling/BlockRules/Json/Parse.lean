import BlockRules.Json.Value

/-!
# Reading JSON

The grammar of JSON texts. Blanks are the four ASCII ones; numbers have no leading zeros
and no plus sign; control characters do not stand in strings; nothing but blanks follows
the value. The two defects that a value can show and the grammar allows, see `Json`, are
passed on to whoever looks at the value.

Nesting is followed by recursion on a bound, the length of the text, which no text
exceeds: every level opens with a character of its own.
-/

namespace BlockRules.Json

/-- A character between tokens. -/
def isGap (c : Char) : Bool := c == ' ' || c == '\n' || c == '\t' || c == '\r'

/-- The text behind the blanks it starts with. -/
def skipGaps (cs : List Char) : List Char := cs.dropWhile isGap

/-- The text behind a word, if it starts with it. -/
def expect : List Char → List Char → Option (List Char)
  | [], cs => some cs
  | w :: ws, c :: cs => if w = c then expect ws cs else none
  | _ :: _, [] => none

/-- The value of a hexadecimal digit of either case. -/
def hexDigit? (c : Char) : Option Nat :=
  if '0' ≤ c ∧ c ≤ '9' then some (c.toNat - 48)
  else if 'a' ≤ c ∧ c ≤ 'f' then some (c.toNat - 87)
  else if 'A' ≤ c ∧ c ≤ 'F' then some (c.toNat - 55)
  else none

/-- The number that four hexadecimal digits stand for. -/
def hexUnit? : List Char → Option (Nat × List Char)
  | a :: b :: c :: d :: cs =>
    match hexDigit? a, hexDigit? b, hexDigit? c, hexDigit? d with
    | some a, some b, some c, some d => some (((a * 16 + b) * 16 + c) * 16 + d, cs)
    | _, _, _, _ => none
  | _ => none

/-- The character for the letter of a short escape. -/
def shortEscape? (c : Char) : Option Char :=
  if c = '"' ∨ c = '\\' ∨ c = '/' then some c
  else if c = 'b' then some '\x08'
  else if c = 'f' then some '\x0c'
  else if c = 'n' then some '\n'
  else if c = 'r' then some '\r'
  else if c = 't' then some '\t'
  else none

/-- One element of a string: a character, or half of a surrogate pair. -/
abbrev StringUnit := Option Char

/-- The first half of a surrogate pair. -/
def isHighSurrogate (n : Nat) : Bool := 0xd800 ≤ n && n < 0xdc00

/-- The second half of a surrogate pair. -/
def isLowSurrogate (n : Nat) : Bool := 0xdc00 ≤ n && n < 0xe000

/-- The character that an escaped number stands for, together with a second one if the two
are a pair, and what follows. -/
def unitChar (high : Nat) (cs : List Char) : StringUnit × List Char :=
  if isHighSurrogate high then
    match cs with
    | '\\' :: 'u' :: more =>
      match hexUnit? more with
      | some (low, rest) =>
        if isLowSurrogate low then
          (some (Char.ofNat (0x10000 + (high - 0xd800) * 0x400 + (low - 0xdc00))), rest)
        else (none, cs)
      | none => (none, cs)
    | _ => (none, cs)
  else if isLowSurrogate high then (none, cs)
  else (some (Char.ofNat high), cs)

/-- The elements of a string up to its closing quote, and what follows. -/
def stringUnits : Nat → List Char → Option (List StringUnit × List Char)
  | 0, _ => none
  | fuel + 1, cs =>
    match cs with
    | [] => none
    | '"' :: rest => some ([], rest)
    | '\\' :: 'u' :: more =>
      match hexUnit? more with
      | none => none
      | some (n, rest) =>
        let (unit, rest) := unitChar n rest
        (stringUnits fuel rest).map fun (us, rest) => (unit :: us, rest)
    | '\\' :: c :: rest =>
      match shortEscape? c with
      | none => none
      | some c => (stringUnits fuel rest).map fun (us, rest) => (some c :: us, rest)
    | ['\\'] => none
    | c :: rest =>
      if c.toNat < 32 then none
      else (stringUnits fuel rest).map fun (us, rest) => (some c :: us, rest)

/-- The content of a string behind its opening quote. -/
def stringBody? (cs : List Char) : Option (Option String × List Char) :=
  (stringUnits (cs.length + 1) cs).map fun (units, rest) =>
    ((units.mapM fun u => u).map String.ofList, rest)

/-- Digits at the front of a text. -/
def digits (cs : List Char) : List Char × List Char :=
  (cs.takeWhile Char.isDigit, cs.dropWhile Char.isDigit)

/-- The number that decimal digits stand for. -/
def decimal (ds : List Char) : Nat := ds.foldl (fun n d => 10 * n + (d.toNat - 48)) 0

/-- What follows the fraction of a number, if there is a well-formed one or none; and whether
there is one. -/
def fractionPart? (cs : List Char) : Option (Bool × List Char) :=
  match cs with
  | '.' :: rest =>
    match digits rest with
    | ([], _) => none
    | (_, rest) => some (true, rest)
  | _ => some (false, cs)

/-- What follows the exponent of a number, in the same way. -/
def exponentPart? (cs : List Char) : Option (Bool × List Char) :=
  match cs with
  | c :: rest =>
    if c = 'e' ∨ c = 'E' then
      let unsigned := match rest with
        | '+' :: more => more
        | '-' :: more => more
        | _ => rest
      match digits unsigned with
      | ([], _) => none
      | (_, rest) => some (true, rest)
    else some (false, cs)
  | [] => some (false, cs)

/-- A number behind its sign. -/
def unsigned? (negative : Bool) (cs : List Char) : Option (Json × List Char) :=
  match digits cs with
  | ([], _) => none
  | (first :: more, rest) =>
    if first = '0' ∧ more ≠ [] then none
    else
      match fractionPart? rest with
      | none => none
      | some (fractional, rest) =>
        match exponentPart? rest with
        | none => none
        | some (scaled, rest) =>
          let n := decimal (first :: more)
          if fractional || scaled || (negative && n == 0) then some (.fraction, rest)
          else some (.integer (if negative then -n else n), rest)

/-- A number. -/
def number? (cs : List Char) : Option (Json × List Char) :=
  match cs with
  | '-' :: rest => unsigned? true rest
  | _ => unsigned? false cs

mutual

/-- A value at the front of a text, and what follows it. -/
def value? : Nat → List Char → Option (Json × List Char)
  | 0, _ => none
  | fuel + 1, cs =>
    match skipGaps cs with
    | 'n' :: rest => (expect "ull".toList rest).map fun rest => (.null, rest)
    | 't' :: rest => (expect "rue".toList rest).map fun rest => (.bool true, rest)
    | 'f' :: rest => (expect "alse".toList rest).map fun rest => (.bool false, rest)
    | '"' :: rest => (stringBody? rest).map fun (content, rest) => (.string content, rest)
    | '[' :: rest =>
      match skipGaps rest with
      | ']' :: rest => some (.array [], rest)
      | rest => (elements? fuel rest).map fun (js, rest) => (.array js, rest)
    | '\x7b' :: rest =>
      match skipGaps rest with
      | '\x7d' :: rest => some (.object [], rest)
      | rest => (members? fuel rest).map fun (ms, rest) => (.object ms, rest)
    | rest => number? rest

/-- One or more values with commas between them, up to the closing bracket. -/
def elements? : Nat → List Char → Option (List Json × List Char)
  | 0, _ => none
  | fuel + 1, cs =>
    match value? fuel cs with
    | none => none
    | some (j, rest) =>
      match skipGaps rest with
      | ']' :: rest => some ([j], rest)
      | ',' :: rest => (elements? fuel rest).map fun (js, rest) => (j :: js, rest)
      | _ => none

/-- One or more members with commas between them, up to the closing brace. -/
def members? : Nat → List Char → Option (List (Option String × Json) × List Char)
  | 0, _ => none
  | fuel + 1, cs =>
    match skipGaps cs with
    | '"' :: rest =>
      match stringBody? rest with
      | none => none
      | some (key, rest) =>
        match skipGaps rest with
        | ':' :: rest =>
          match value? fuel rest with
          | none => none
          | some (j, rest) =>
            match skipGaps rest with
            | '\x7d' :: rest => some ([(key, j)], rest)
            | ',' :: rest => (members? fuel rest).map fun (ms, rest) => ((key, j) :: ms, rest)
            | _ => none
        | _ => none
    | _ => none

end

/-- The value that a text as a whole stands for. -/
def parse? (text : String) : Option Json :=
  let cs := text.toList
  match value? (2 * cs.length + 2) cs with
  | some (j, rest) => if (skipGaps rest).isEmpty then some j else none
  | none => none

end BlockRules.Json
