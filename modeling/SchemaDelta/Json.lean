/-
**JSON, written on several lines.**

Main definitions:

* `SchemaDelta.Json` — JSON values; the members of an object keep their order;
* `SchemaDelta.Json.quoted` — a string with its escapes;
* `SchemaDelta.Json.pretty` — a value with one item on each line and two spaces for each level.
-/

import SchemaDelta.Failure

set_option relaxedAutoImplicit false
set_option autoImplicit false

namespace SchemaDelta

/-- A JSON value. -/
inductive Json where
  | null
  | bool (value : Bool)
  | number (value : Nat)
  | text (value : Text)
  | array (items : List Json)
  | object (members : List (Text × Json))

namespace Json

/-- The value of an optional text. -/
def ofOption : Option Text → Json
  | none => .null
  | some t => .text t

/-- The value of a list of texts. -/
def ofTexts (ts : List Text) : Json :=
  .array (ts.map .text)

/-- A character of a string.  Quotes, backslashes and control characters are escaped. -/
def escaped (c : Char) : Text :=
  if c = '\x22' then ['\\', c]
  else if c = '\\' then ['\\', c]
  else if c = '\n' then ['\\', 'n']
  else if c = '\r' then ['\\', 'r']
  else if c = '\t' then ['\\', 't']
  else if c.toNat = 8 then ['\\', 'b']
  else if c.toNat = 12 then ['\\', 'f']
  else if c.toNat < 0x20 then
    "\\u00".toList ++ [Nat.digitChar (c.toNat / 16), Nat.digitChar (c.toNat % 16)]
  else [c]

/-- A string between quotes. -/
def quoted (t : Text) : Text :=
  '\x22' :: t.flatMap escaped ++ ['\x22']

/-- A line end and the indentation of the next line. -/
def newLine (level : Nat) : Text :=
  '\n' :: List.replicate (2 * level) ' '

mutual

/-- A value on several lines, at the given level of indentation. -/
def prettyAt (level : Nat) : Json → Text
  | .null => "null".toList
  | .bool value => (if value then "true" else "false").toList
  | .number value => Text.ofNat value
  | .text value => quoted value
  | .array [] => "[]".toList
  | .array (x :: xs) =>
    '[' :: newLine (level + 1) ++ prettyAt (level + 1) x ++ prettyItems (level + 1) xs ++
      newLine level ++ [']']
  | .object [] => ['\x7b', '\x7d']
  | .object (m :: ms) =>
    '\x7b' :: newLine (level + 1) ++ prettyMember (level + 1) m ++ prettyMembers (level + 1) ms ++
      newLine level ++ ['\x7d']

/-- The items of an array after the first one. -/
def prettyItems (level : Nat) : List Json → Text
  | [] => []
  | x :: xs => ',' :: newLine level ++ prettyAt level x ++ prettyItems level xs

/-- A member of an object. -/
def prettyMember (level : Nat) : Text × Json → Text
  | (key, value) => quoted key ++ ": ".toList ++ prettyAt level value

/-- The members of an object after the first one. -/
def prettyMembers (level : Nat) : List (Text × Json) → Text
  | [] => []
  | m :: ms => ',' :: newLine level ++ prettyMember level m ++ prettyMembers level ms

end

/-- A value on several lines. -/
def pretty (j : Json) : Text :=
  prettyAt 0 j

end Json

end SchemaDelta
