/-
**Schemas.**

A schema is a list of statements: references to databases, tables, and statements that say nothing
about either.  A name may be given to several tables, of which the last one counts.

Main definitions:

* `SchemaDelta.Statement`, `SchemaDelta.Schema` — statements and lists of them;
* `SchemaDelta.Schema.tables`, `SchemaDelta.Schema.tableNames` — the tables in source order;
* `SchemaDelta.Schema.table?`, `SchemaDelta.Schema.hasTable`, `SchemaDelta.Schema.tablesByName` —
  tables by name;
* `SchemaDelta.Schema.databaseNames` — the databases that are referred to.
-/

import SchemaDelta.Table

set_option relaxedAutoImplicit false
set_option autoImplicit false

namespace SchemaDelta

/-- A statement of a schema. -/
inductive Statement where
  /-- A database that is used or created. -/
  | databaseReference (name : Text)
  /-- A table. -/
  | createTable (table : Table)
  /-- A statement that says nothing about databases and tables. -/
  | ignored
  deriving Repr, DecidableEq

/-- The table of a statement. -/
def Statement.table? : Statement → Option Table
  | .createTable t => some t
  | _ => none

/-- The database name of a statement. -/
def Statement.databaseName? : Statement → Option Text
  | .databaseReference name => some name
  | _ => none

/-- A schema is what its statements say. -/
structure Schema where
  /-- The statements in order. -/
  statements : List Statement
  deriving Repr, DecidableEq

namespace Schema

/-- The schema without statements. -/
def empty : Schema :=
  ⟨[]⟩

/-- The tables in source order. -/
def tables (s : Schema) : List Table :=
  s.statements.filterMap Statement.table?

/-- The names of the tables in source order. -/
def tableNames (s : Schema) : List Text :=
  s.tables.map Table.name

/-- The last table of a name. -/
def table? (s : Schema) (name : Text) : Option Table :=
  lastNamed? Table.name name s.tables

/-- Whether some table has the given name. -/
def hasTable (s : Schema) (name : Text) : Bool :=
  (s.table? name).isSome

/-- Every table name with the last table that bears it. -/
def tablesByName (s : Schema) : List (Text × Table) :=
  lastByName Table.name s.tables

/-- The names of the databases that are referred to, in source order. -/
def databaseNames (s : Schema) : List Text :=
  s.statements.filterMap Statement.databaseName?

theorem hasTable_iff {s : Schema} {name : Text} :
    s.hasTable name = true ↔ name ∈ s.tableNames := by
  simp [hasTable, table?, lastNamed?_isSome_iff, tableNames]

end Schema

end SchemaDelta
