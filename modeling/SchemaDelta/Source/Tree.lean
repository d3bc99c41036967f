/-
**Statements as they are written.**

The concrete statements of a schema text keep everything that was written: quotes around names,
escapes in strings, and syntax that has no bearing on tables.  What they mean is said in
`SchemaDelta.Source.Meaning`.

Main definitions:

* `SchemaDelta.Source.Statement` — a top-level statement;
* `SchemaDelta.Source.Table`, `SchemaDelta.Source.Definition` — a table and what stands in its
  parenthesis;
* `SchemaDelta.Source.Index`, `SchemaDelta.Source.Field` — declared indices and columns.
-/

import SchemaDelta.Index

set_option relaxedAutoImplicit false
set_option autoImplicit false

namespace SchemaDelta.Source

/-- The value after `DEFAULT` or `ON UPDATE`. -/
inductive DefaultValue where
  /-- The time of the change. -/
  | currentTimestamp
  /-- A string: its quote and its body with the escapes in place. -/
  | quoted (quote : Char) (body : Text)
  /-- The binary digits of a number written as bits. -/
  | bits (digits : Text)
  /-- Any other word. -/
  | token (text : Text)
  deriving Repr, DecidableEq

/-- What is said about a column after its type. -/
inductive Qualifier where
  | notNull
  | null
  | primaryKey
  | autoIncrement
  | characterSet (name : Text)
  | collate (name : Text)
  | uniqueKey
  | key
  | default (value : DefaultValue)
  /-- The body of a comment on the column, escapes in place. -/
  | comment (body : Text)
  | onUpdate (value : DefaultValue)
  /-- A reference to another table, as it is written. -/
  | references (text : Text)
  deriving Repr, DecidableEq

/-- A column definition. -/
structure Field where
  /-- The name, possibly quoted. -/
  name : Text
  /-- The name of the type. -/
  type : Text
  /-- The arguments of the type. -/
  args : List Text
  /-- Words such as `UNSIGNED` right after the type. -/
  typeQualifiers : List Text
  /-- The qualifiers in order. -/
  qualifiers : List Qualifier
  deriving Repr, DecidableEq

/-- The words that introduce an index. -/
inductive IndexKind where
  | primary
  | unique
  | fulltext
  | spatial
  | plain
  deriving Repr, DecidableEq

/-- An index definition. -/
structure Index where
  /-- The words that introduce it. -/
  kind : IndexKind
  /-- The name, possibly quoted. -/
  name : Option Text
  /-- The storage method asked for before the columns. -/
  before : Option IndexMethod
  /-- The columns, possibly quoted. -/
  columns : List Text
  /-- The storage method asked for after the columns. -/
  after : Option IndexMethod
  deriving Repr, DecidableEq

/-- What stands in the parenthesis of a table. -/
inductive Definition where
  | index (index : Index)
  /-- A foreign key, as it is written. -/
  | foreignKey (text : Text)
  | field (field : Field)
  deriving Repr, DecidableEq

/-- An option after the parenthesis of a table. -/
structure TableOption where
  /-- The name of the option. -/
  name : Text
  /-- Its value as it is written. -/
  value : Text
  deriving Repr, DecidableEq

/-- The creation of a table. -/
structure Table where
  /-- Whether the table lasts for the session only. -/
  temporary : Bool
  /-- Whether an existing table is left alone. -/
  ifNotExists : Bool
  /-- The name, possibly quoted. -/
  name : Text
  /-- The definitions in order. -/
  definitions : List Definition
  /-- The options in order. -/
  options : List TableOption
  deriving Repr, DecidableEq

/-- A top-level statement. -/
inductive Statement where
  | comment (text : Text)
  | use (database : Text)
  | set (text : Text)
  | dropTable (text : Text)
  | createDatabase (name : Text)
  | createTable (table : Table)
  | alterTable (table : Text) (body : Text)
  | insert (text : Text)
  | delimiter (token : Text)
  | empty
  deriving Repr, DecidableEq

end SchemaDelta.Source
