/-
**The grammar of statements.**

Ten kinds of statement stand at the top level of a schema.  Only the creation of a table is read in
detail; from its name on it is committed to, and so is every definition after the parenthesis or a
comma, so that an error points at the definition that does not fit.

Main definitions:

* `SchemaDelta.Source.createDefinition` — what stands in the parenthesis of a table;
* `SchemaDelta.Source.tableOption` — an option after the parenthesis;
* `SchemaDelta.Source.createTable` — the creation of a table;
* `SchemaDelta.Source.statements`, `SchemaDelta.Source.statement` — the kinds of statement, and any
  one of them.
-/

import SchemaDelta.Source.Column

set_option relaxedAutoImplicit false
set_option autoImplicit false

namespace SchemaDelta.Source

open Rule Lexeme

/-! ### Tables -/

/-- What stands in the parenthesis of a table. -/
def createDefinition : Rule Definition :=
  firstOf
    [.index <$> indexDefinition,
      .foreignKey <$> foreignKeyDefinition,
      .field <$> within .fieldDefinition fieldDefinition]

/-- The definitions of a table, to each of which the rule is committed. -/
def createDefinitions : Rule (List Definition) :=
  sepBy1 comma (commit createDefinition)

/-- A comma, or nothing, between the options of a table. -/
def optionSeparator : Rule Unit := do
  gap0
  let _ ← optional (char ',')
  gap0

/-- The characters of an option's value that is not a string. -/
def isOptionChar (c : Char) : Bool :=
  isWordChar c || c == '.' || c == '-'

/-- An option of a table: a name and a value, with or without an equals sign between them. -/
def tableOption : Rule TableOption := do
  let _ ← optional (keyword "default" *> gap1)
  let name ← keywords "character set" <|> bareIdentifier
  gap0
  let _ ← optional (char '=')
  gap0
  let value ← matched quotedString <|> span1 isOptionChar
  return { name, value }

/-- The words before the name of a table: whether it is temporary, and whether an existing table is
left alone. -/
def tableStart : Rule (Bool × Bool) := do
  let _ ← keyword "create"
  let temporary ← optional (gap1 *> keyword "temporary")
  gap1
  let _ ← keyword "table"
  let ifNotExists ← optional (gap1 *> keywords "if not exists")
  gap1
  return (temporary.isSome, ifNotExists.isSome)

/-- The name, the definitions and the options of a table, up to the semicolon. -/
def tableBody : Rule (Text × List Definition × List TableOption) := do
  let name ← identifier
  gap0
  let definitions ← within .definitionList (parenthesized createDefinitions)
  let options ← many (optionSeparator *> tableOption)
  statementEnd
  return (name, definitions, options)

/-- The creation of a table. -/
def createTable : Rule Table := do
  let start ← tableStart
  let body ← commit (within .createTable tableBody)
  return {
    temporary := start.1
    ifNotExists := start.2
    name := body.1
    definitions := body.2.1
    options := body.2.2 }

/-! ### Statements -/

/-- The rest of a statement as it is written, up to and including the semicolon. -/
def verbatimEnd : Rule Text := do
  let text ← verbatim
  statementEnd
  return text

/-- The choice of a database. -/
def useStatement : Rule Statement := do
  let _ ← keyword "use"
  gap1
  let database ← within .useTarget (identifier <* statementEnd)
  return .use database

/-- The setting of a variable. -/
def setStatement : Rule Statement := do
  let _ ← keyword "set"
  let text ← verbatimEnd
  return .set text

/-- The removal of a table. -/
def dropTable : Rule Statement := do
  let _ ← keywords "drop table"
  let text ← verbatimEnd
  return .dropTable text

/-- The creation of a database. -/
def createDatabase : Rule Statement := do
  let _ ← keyword "create"
  gap1
  let _ ← keyword "database" <|> keyword "schema"
  let _ ← optional (gap1 *> keywords "if not exists")
  gap1
  let name ← identifier
  let _ ← verbatimEnd
  return .createDatabase name

/-- The change of a table, kept as it is written. -/
def alterTable : Rule Statement := do
  let _ ← keywords "alter table"
  gap1
  let table ← identifier
  let body ← verbatimEnd
  return .alterTable table body

/-- The insertion of rows. -/
def insertStatement : Rule Statement := do
  let _ ← keyword "insert"
  let text ← verbatimEnd
  return .insert text

/-- The choice of another mark for the end of statements, which itself needs none. -/
def delimiterStatement : Rule Statement := do
  let _ ← keyword "delimiter"
  let _ ← spaces
  let token ← span1 fun c => !isSpace c
  return .delimiter token

/-- The kinds of statement. -/
def statements : List (Rule Statement) :=
  [.comment <$> comment, useStatement, setStatement, dropTable, createDatabase,
    .createTable <$> createTable, alterTable, insertStatement, delimiterStatement,
    (fun _ => .empty) <$> char ';']

/-- A statement, at the very start of a text. -/
def statement : Rule Statement :=
  firstOf statements

end SchemaDelta.Source
