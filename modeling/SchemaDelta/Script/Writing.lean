/-
**Writing a migration script.**

A script opens a transaction, turns the checking of foreign keys off, creates, alters and drops
tables, turns the checking on again and closes the transaction.  An empty line stands between
statements.

Main definitions:

* `SchemaDelta.Generator.field`, `SchemaDelta.Generator.index` — the definitions in a table;
* `SchemaDelta.Generator.createTable`, `SchemaDelta.Generator.alterTable`,
  `SchemaDelta.Generator.dropTable` — the statements;
* `SchemaDelta.Generator.script` — the script of a delta.
-/

import SchemaDelta.Delta.Basic
import SchemaDelta.Script.Generator
import SchemaDelta.Text.Uppercase

set_option relaxedAutoImplicit false
set_option autoImplicit false

namespace SchemaDelta

/-- The word that asks for a storage method. -/
def IndexMethod.word : IndexMethod → String
  | .btree => "BTREE"
  | .hash => "HASH"
  | .rtree => "RTREE"

/-- The words that introduce an index.  Of several properties the first of this order is named. -/
def Index.words (i : Index) : String :=
  if i.primary then "PRIMARY KEY"
  else if i.unique then "UNIQUE KEY"
  else if i.fulltext then "FULLTEXT"
  else if i.spatial then "SPATIAL"
  else "KEY"

namespace Generator

variable (g : Generator)

/-! ### Columns -/

/-- A default value. -/
def default : DefaultValue → Text
  | .text value => g.quoteString value
  | .bits value => g.bitLiteral value
  | .currentTimestamp => "CURRENT_TIMESTAMP()".toList
  | .unclassified raw => raw

/-- A qualifier of a column. -/
def qualifier : Qualifier → Text
  | .notNull => "NOT NULL".toList
  | .null => "NULL".toList
  | .primaryKey => "PRIMARY KEY".toList
  | .autoIncrement => "AUTO_INCREMENT".toList
  | .characterSet name => "CHARACTER SET ".toList ++ name
  | .collate name => "COLLATE ".toList ++ name
  | .uniqueKey => "UNIQUE KEY".toList
  | .key => "KEY".toList
  | .default value => "DEFAULT ".toList ++ g.default value

/-- The arguments of a type, in parentheses unless there are none. -/
def typeArgs (args : List Text) : Text :=
  if args.isEmpty then [] else '(' :: Text.joinWith ", ".toList args ++ [')']

/-- A column definition. -/
def field (f : Field) : Text :=
  g.quoteIdentifier f.name ++ ' ' :: Text.uppercase f.type ++ typeArgs f.args ++
    f.qualifiers.flatMap fun q => ' ' :: g.qualifier q

/-! ### Indices -/

/-- A name in front of which a space stands, if there is a name. -/
def spacedName : Option Text → Text
  | none => []
  | some name => ' ' :: g.quoteIdentifier name

/-- A storage method with the word that announces it, if there is one. -/
def usingMethod : Option IndexMethod → Text
  | none => []
  | some m => " USING ".toList ++ m.word.toList

/-- An index definition. -/
def index (i : Index) : Text :=
  i.words.toList ++ g.spacedName i.name ++ usingMethod i.method ++ " (".toList ++
    Text.joinWith ", ".toList (i.columns.map g.quoteIdentifier) ++ [')']

/-! ### Statements -/

/-- The creation of a table, with one definition on each line. -/
def createTable (t : Table) : Text :=
  "CREATE TABLE ".toList ++ g.quoteIdentifier t.name ++ " (\n".toList ++
    Text.joinWith ",\n".toList
      ((t.fields.map g.field ++ t.declared.map g.index).map fun d => "  ".toList ++ d) ++
    "\n);".toList

/-- One change of a table.  An index without a name is dropped by its leading column. -/
def clause : Clause → Text
  | .addField f => "ADD COLUMN ".toList ++ g.field f
  | .dropField name => "DROP COLUMN ".toList ++ g.quoteIdentifier name
  | .alterField f => "CHANGE COLUMN ".toList ++ g.field f
  | .dropIndex i =>
    if i.primary then "DROP PRIMARY KEY".toList
    else "DROP INDEX ".toList ++ g.quoteIdentifier (i.name.getD i.leading)
  | .addIndex i => "ADD ".toList ++ g.index i

/-- The change of a table. -/
def alterTable (name : Text) (clauses : List Clause) : Text :=
  "ALTER TABLE ".toList ++ g.quoteIdentifier name ++ ' ' ::
    Text.joinWith ",\n  ".toList (clauses.map g.clause) ++ [';']

/-- The removal of a table. -/
def dropTable (name : Text) : Text :=
  "DROP TABLE ".toList ++ g.quoteIdentifier name ++ [';']

/-! ### Scripts -/

/-- The statements that create, alter and drop tables, in this order. -/
def statements (d : Delta) : List Text :=
  d.creates.map g.createTable ++ d.alters.map (fun a => g.alterTable a.1 a.2) ++
    d.drops.map g.dropTable

/-- The script of a delta. -/
def script (d : Delta) : Text :=
  Text.joinWith "\n\n".toList
      ([g.beginTransaction, g.foreignKeyChecks false] ++ g.statements d ++
        [g.foreignKeyChecks true, g.commitTransaction]) ++
    ['\n']

end Generator

end SchemaDelta
