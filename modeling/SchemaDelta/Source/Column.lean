/-
**The grammar of columns.**

A column has a name, a type with arguments in parentheses, and any number of qualifiers.

Main definitions:

* `SchemaDelta.Source.typeArg` — a number, a string or a word as the argument of a type;
* `SchemaDelta.Source.defaultValue` — the value after `DEFAULT`;
* `SchemaDelta.Source.fieldQualifiers`, `SchemaDelta.Source.fieldQualifier` — the kinds of
  qualifier, and any one of them;
* `SchemaDelta.Source.fieldDefinition` — a column definition.
-/

import SchemaDelta.Source.Key

set_option relaxedAutoImplicit false
set_option autoImplicit false

namespace SchemaDelta.Source

open Rule Lexeme

/-! ### Types -/

/-- A decimal number with an optional sign, fraction and exponent. -/
def number : Rule Text :=
  matched do
    let _ ← optional (oneOf "+-")
    let _ ← digits1
    let _ ← optional (char '.' *> span Char.isDigit)
    let _ ← optional do
      let _ ← oneOf "eE"
      let _ ← optional (oneOf "+-")
      digits1

/-- An argument of a type. -/
def typeArg : Rule Text :=
  firstOf [number, matched quotedString, bareIdentifier]

/-- A word right after a type that belongs to it. -/
def typeQualifier : Rule Text :=
  firstOf [keyword "unsigned", keyword "signed", keyword "zerofill", keyword "binary"]

/-! ### Default values -/

/-- The parentheses of a call, with a precision in them or nothing. -/
def emptyCall : Rule Unit := do
  let _ ← char '('
  gap0
  let _ ← optional digits1
  gap0
  let _ ← char ')'

/-- The time of the change, under either of its names. -/
def currentTime : Rule Unit :=
  (do
    let _ ← keyword "current_timestamp"
    let _ ← optional (gap0 *> emptyCall)) <|>
  (do
    let _ ← keyword "now"
    gap0
    emptyCall)

/-- A binary digit. -/
def isBit (c : Char) : Bool :=
  c == '0' || c == '1'

/-- Up to 64 binary digits between single quotes, after the letter `b`. -/
def bitLiteral : Rule Text := do
  let _ ← letters "b".toList
  let _ ← char singleQuote
  let digits ← spanUpTo 64 isBit
  let _ ← char singleQuote
  return digits

/-- The characters of a default value that is neither a string nor a number of bits. -/
def isTokenChar (c : Char) : Bool :=
  isWordChar c || c == ':' || c == '.' || c == '-'

/-- The value after `DEFAULT`. -/
def defaultValue : Rule DefaultValue :=
  firstOf
    [(fun _ => .currentTimestamp) <$> currentTime,
      (fun q => .quoted q.1 q.2) <$> quotedString,
      .bits <$> bitLiteral,
      .token <$> span1 isTokenChar]

/-! ### Qualifiers -/

/-- A character set. -/
def characterSet : Rule Text := do
  let _ ← keywords "character set" <|> keyword "charset"
  gap1
  identifier

/-- A collation. -/
def collation : Rule Text := do
  let _ ← keyword "collate"
  gap1
  identifier

/-- A default value with the word that announces it. -/
def defaultClause : Rule DefaultValue := do
  let _ ← keyword "default"
  gap1
  within .defaultValue defaultValue

/-- A comment on a column, which is a string. -/
def commentClause : Rule Text := do
  let _ ← keyword "comment"
  gap1
  let q ← quotedString
  return q.2

/-- The value that a column takes when its row changes. -/
def onUpdateClause : Rule DefaultValue := do
  let _ ← keywords "on update"
  gap1
  defaultValue

/-- The kinds of qualifier. -/
def fieldQualifiers : List (Rule Qualifier) :=
  [(fun _ => .notNull) <$> keywords "not null",
    (fun _ => .null) <$> keyword "null",
    (fun _ => .primaryKey) <$> keywords "primary key",
    (fun _ => .autoIncrement) <$> (keyword "auto_increment" <|> keywords "auto increment"),
    .characterSet <$> characterSet,
    .collate <$> collation,
    (fun _ => .uniqueKey) <$> (keyword "unique" *> indexWord?),
    (fun _ => .key) <$> indexWord,
    .default <$> defaultClause,
    .comment <$> commentClause,
    .onUpdate <$> onUpdateClause,
    .references <$> matched referenceDefinition]

/-- A qualifier of a column. -/
def fieldQualifier : Rule Qualifier :=
  firstOf fieldQualifiers

/-! ### Columns -/

/-- A column definition. -/
def fieldDefinition : Rule Field := do
  let name ← identifier
  gap1
  let type ← bareIdentifier
  let args ← optional (gap0 *> parenthesized (commaList typeArg))
  let typeQualifiers ← many (gap1 *> typeQualifier)
  let qualifiers ← many (gap1 *> fieldQualifier)
  return { name, type, args := args.getD [], typeQualifiers, qualifiers }

end SchemaDelta.Source
