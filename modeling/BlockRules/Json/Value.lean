/-!
# JSON values

The data that a JSON text stands for, as far as this library looks at them, and their
compact text.

Two things of a text are kept apart that other readers of JSON give up on, because a text
that holds them is refused only where the value is looked at: a number that is not
written as an integer has no value here (`Json.fraction`), and a string that holds half
of a surrogate pair has no content (`none`).
-/

namespace BlockRules

/-- What a JSON text stands for. -/
inductive Json where
  | null
  | bool (b : Bool)
  | integer (n : Int)
  /-- a number with a fraction or an exponent, or negative zero -/
  | fraction
  /-- a string, with its content if it is proper text -/
  | string (content : Option String)
  | array (elements : List Json)
  /-- an object with its members in order, repeated keys included -/
  | object (members : List (Option String × Json))

namespace Json

/-- A character inside a string. -/
def escaped (c : Char) : String :=
  if c = '"' then "\\\""
  else if c = '\\' then "\\\\"
  else if c = '\n' then "\\n"
  else if c = '\r' then "\\r"
  else if c = '\t' then "\\t"
  else if c.toNat = 8 then "\\b"
  else if c.toNat = 12 then "\\f"
  else if c.toNat < 32 then
    "\\u00" ++ (if c.toNat < 16 then "0" else "1") ++ String.ofList (Nat.toDigits 16 (c.toNat % 16))
  else String.singleton c

/-- A string in quotes. -/
def quoted (content : String) : String :=
  "\"" ++ String.join (content.toList.map escaped) ++ "\""

/-- A string in quotes. One without content is shown by half of a surrogate pair, which
reads back as no content. -/
def quotedContent : Option String → String
  | some content => quoted content
  | none => "\"\\ud800\""

mutual

/-- The text of a value, without any blanks. A fraction is shown by negative zero, which
reads back as one. -/
def render : Json → String
  | .null => "null"
  | .bool true => "true"
  | .bool false => "false"
  | .integer n => toString n
  | .fraction => "-0.0"
  | .string content => quotedContent content
  | .array elements => "[" ++ renderElements elements ++ "]"
  | .object members => "\x7b" ++ renderMembers members ++ "\x7d"

/-- The texts of values, with commas between them. -/
def renderElements : List Json → String
  | [] => ""
  | [j] => render j
  | j :: js => render j ++ "," ++ renderElements js

/-- The texts of members, with commas between them. -/
def renderMembers : List (Option String × Json) → String
  | [] => ""
  | [(key, j)] => quotedContent key ++ ":" ++ render j
  | (key, j) :: ms => quotedContent key ++ ":" ++ render j ++ "," ++ renderMembers ms

end

end Json

end BlockRules
