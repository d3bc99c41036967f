/-
**Gaps between words.**

Words of a schema are kept apart by spaces, tabs and line ends, and by comments, which count as
white space.  A line comment starts with `#` or `--` and ends before the next line feed; a block
comment stands between `/*` and the next `*/`, and one that is not closed is no comment.

Main definitions:

* `SchemaDelta.Lexeme.comment` — a comment of either kind;
* `SchemaDelta.Lexeme.gap0`, `SchemaDelta.Lexeme.gap1` — white space that may, or has to, be there;
* `SchemaDelta.Lexeme.parenthesized`, `SchemaDelta.Lexeme.commaList` — punctuation with gaps inside.
-/

import SchemaDelta.Rule.Basic

set_option relaxedAutoImplicit false
set_option autoImplicit false

namespace SchemaDelta.Lexeme

open Rule

/-! ### Comments -/

/-- A comment up to the end of its line. -/
def lineComment : Rule Text :=
  matched do
    let _ ← literal "#" <|> literal "--"
    span fun c => c != '\n'

/-- A comment with a closing mark. -/
def blockComment : Rule Text :=
  matched do
    let _ ← literal "/*"
    let _ ← upTo "*/"
    literal "*/"

/-- A comment of either kind. -/
def comment : Rule Text :=
  lineComment <|> blockComment

/-! ### White space -/

/-- The white space of the schema language: a space, a tab or half of a line end. -/
def isSpace (c : Char) : Bool :=
  c == ' ' || c == '\t' || c == '\r' || c == '\n'

/-- A run of white space. -/
def spaces : Rule Text :=
  span1 isSpace

/-- White space and comments, as many as there are. -/
def gap0 : Rule Unit :=
  discard (many (spaces <|> comment))

/-- White space and comments, at least one of them. -/
def gap1 : Rule Unit :=
  discard (many1 (spaces <|> comment))

/-! ### Punctuation -/

/-- A parenthesis around something, with gaps allowed inside. -/
def parenthesized {α : Type} (inner : Rule α) : Rule α := do
  let _ ← char '('
  gap0
  let a ← inner
  gap0
  let _ ← char ')'
  return a

/-- A comma with gaps allowed around it. -/
def comma : Rule Unit := do
  gap0
  let _ ← char ','
  gap0

/-- One or more items with commas between them. -/
def commaList {α : Type} (item : Rule α) : Rule (List α) :=
  sepBy1 comma item

end SchemaDelta.Lexeme
