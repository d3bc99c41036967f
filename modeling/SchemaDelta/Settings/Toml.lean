/-
**Flat TOML documents.**

A settings file is a TOML document that holds strings and truth values under simple keys.  The rules
here read such a document in full: bare and quoted keys, the four forms of strings with their
escapes, comments, and both kinds of line end.  Documents with tables, dotted keys, numbers, dates
or lists have no place as settings and are not read.

Main definitions:

* `SchemaDelta.Toml.Value` — a string or a truth value;
* `SchemaDelta.Toml.stringValue` — a string in any of its forms;
* `SchemaDelta.Toml.entry`, `SchemaDelta.Toml.line` — a key with its value, and a line;
* `SchemaDelta.Toml.read` — the entries of a document.
-/

import SchemaDelta.Rule.Basic

set_option relaxedAutoImplicit false
set_option autoImplicit false

namespace SchemaDelta.Toml

open Rule

/-- The values that settings have. -/
inductive Value where
  | text (value : Text)
  | bool (value : Bool)
  deriving Repr, DecidableEq

/-! ### Blanks, comments and line ends -/

/-- A space or a tab. -/
def isBlank (c : Char) : Bool :=
  c == ' ' || c == '\t'

/-- A character that may stand in a comment or a string: no control character but the tab. -/
def isPrintable (c : Char) : Bool :=
  c == '\t' || (0x20 ≤ c.toNat && c.toNat != 0x7F)

/-- Spaces and tabs, as many as there are. -/
def blanks : Rule Unit :=
  Functor.discard (span isBlank)

/-- A line feed, with or without a carriage return in front. -/
def newline : Rule Unit :=
  Functor.discard (literal "\n" <|> literal "\r\n")

/-- The end of the text. -/
def endOfText : Rule Unit := fun s =>
  if s.isEmpty then .ok () s else .mismatch ⟨s, []⟩

/-- A comment up to the end of its line. -/
def comment : Rule Unit :=
  Functor.discard (char '#' *> span isPrintable)

/-! ### Strings -/

/-- The value of a hexadecimal digit. -/
def hexDigit? (c : Char) : Option Nat :=
  if c.isDigit then some (c.toNat - '0'.toNat)
  else if 'a' ≤ c ∧ c ≤ 'f' then some (c.toNat - 'a'.toNat + 10)
  else if 'A' ≤ c ∧ c ≤ 'F' then some (c.toNat - 'A'.toNat + 10)
  else none

/-- The number that the given count of hexadecimal digits stands for, after those read so far. -/
def hexNumber : Nat → Nat → Rule Nat
  | 0, value => pure value
  | n + 1, value => do
    let c ← satisfy fun c => (hexDigit? c).isSome
    hexNumber n (16 * value + (hexDigit? c).getD 0)

/-- The character with the given number of hexadecimal digits, which has to be one. -/
def hexChar (digits : Nat) : Rule Char := do
  let n ← hexNumber digits 0
  if n.isValidChar then return Char.ofNat n else refusal

/-- What may follow a backslash in a string, and the character it stands for. -/
def escape : Rule Char := do
  let _ ← char '\\'
  firstOf
    [(fun _ => Char.ofNat 8) <$> char 'b', (fun _ => '\t') <$> char 't',
      (fun _ => '\n') <$> char 'n', (fun _ => Char.ofNat 12) <$> char 'f',
      (fun _ => '\r') <$> char 'r', char '\x22', char '\\', char 'u' *> hexChar 4,
      char 'U' *> hexChar 8]

/-- A character that stands for itself in a string with escapes. -/
def isBasic (c : Char) : Bool :=
  isPrintable c && c != '\x22' && c != '\\'

/-- A character that stands for itself in a string without escapes. -/
def isLiteral (c : Char) : Bool :=
  isPrintable c && c != '\x27'

/-- A string with escapes on one line. -/
def basicString : Rule Text := do
  let _ ← char '\x22'
  let parts ← many (span1 isBasic <|> List.singleton <$> escape)
  let _ ← char '\x22'
  return parts.flatten

/-- A string without escapes on one line. -/
def literalString : Rule Text := do
  let _ ← char '\x27'
  let body ← span isLiteral
  let _ ← char '\x27'
  return body

/-- One or two quotes inside a string on several lines. -/
def innerQuotes (quote : Char) : Rule Text := do
  let quotes ← span1 fun c => c == quote
  if quotes.length < 3 then return quotes else refusal

/-- The three quotes that end a string on several lines, before which up to two more belong to the
string. -/
def closingQuotes (quote : Char) : Rule Text := do
  let quotes ← span1 fun c => c == quote
  if 3 ≤ quotes.length ∧ quotes.length ≤ 5 then return quotes.drop 3 else refusal

/-- A string on several lines, made of the given parts.  A line end right after the opening quotes
does not belong to it. -/
def multiline (quotes : String) (quote : Char) (parts : List (Rule Text)) : Rule Text := do
  let _ ← literal quotes
  let _ ← optional newline
  let body ← many (firstOf (parts ++ [(fun _ => ['\n']) <$> newline, innerQuotes quote]))
  let last ← closingQuotes quote
  return body.flatten ++ last

/-- A backslash at the end of a line, which takes the line end and all blanks after it away. -/
def joinedLines : Rule Text := do
  let _ ← char '\\'
  blanks
  newline
  let _ ← many (Functor.discard (satisfy isBlank) <|> newline)
  return []

/-- A string with escapes on several lines. -/
def multilineBasic : Rule Text :=
  multiline "\x22\x22\x22" '\x22' [span1 isBasic, joinedLines, List.singleton <$> escape]

/-- A string without escapes on several lines. -/
def multilineLiteral : Rule Text :=
  multiline "\x27\x27\x27" '\x27' [span1 isLiteral]

/-- A string in any of its forms. -/
def stringValue : Rule Text :=
  firstOf [multilineBasic, basicString, multilineLiteral, literalString]

/-! ### Documents -/

/-- A character of a key without quotes. -/
def isKeyChar (c : Char) : Bool :=
  c.isAlphanum || c == '_' || c == '-'

/-- A key, bare or quoted. -/
def key : Rule Text :=
  firstOf [span1 isKeyChar, basicString, literalString]

/-- A string or a truth value. -/
def value : Rule Value :=
  firstOf
    [.text <$> stringValue, (fun _ => .bool true) <$> literal "true",
      (fun _ => .bool false) <$> literal "false"]

/-- A key with its value. -/
def entry : Rule (Text × Value) := do
  let k ← key
  blanks
  let _ ← char '='
  blanks
  let v ← value
  return (k, v)

/-- A line: an entry or none, a comment or none, and the end. -/
def line : Rule (Option (Text × Value)) := do
  blanks
  let e ← optional entry
  blanks
  let _ ← optional comment
  newline <|> endOfText
  return e

/-- The entries of a document, which a byte order mark may precede. -/
def document : Rule (List (Text × Value)) := do
  let _ ← optional (char (Char.ofNat 0xFEFF))
  let lines ← many line
  endOfText
  return lines.filterMap id

/-- The entries of a document, unless it is not read in full or a key occurs twice. -/
def read (text : Text) : Option (List (Text × Value)) :=
  match document text with
  | .ok entries _ => if (entries.map Prod.fst).Nodup then some entries else none
  | _ => none

end SchemaDelta.Toml
