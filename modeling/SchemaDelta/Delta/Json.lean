/-
**Schemas and deltas as JSON.**

A value of one of several kinds is an object with its kind under `type` and what it carries, if
anything, under `value`.

Main definitions:

* `SchemaDelta.Field.toJson`, `SchemaDelta.Index.toJson`, `SchemaDelta.Table.toJson` — tables and
  their parts;
* `SchemaDelta.Statement.toJson` — statements of a schema;
* `SchemaDelta.Delta.toJson` — deltas.
-/

import SchemaDelta.Delta.Basic
import SchemaDelta.Json

set_option relaxedAutoImplicit false
set_option autoImplicit false

namespace SchemaDelta

/-- An object with the given members. -/
def Json.record (members : List (String × Json)) : Json :=
  .object (members.map fun m => (m.1.toList, m.2))

/-- The object of a kind that carries nothing. -/
def Json.kind (type : String) : Json :=
  .record [("type", .text type.toList)]

/-- The object of a kind that carries a value. -/
def Json.kindOf (type : String) (value : Json) : Json :=
  .record [("type", .text type.toList), ("value", value)]

/-- A default value as JSON. -/
def DefaultValue.toJson : DefaultValue → Json
  | .text value => .kindOf "string_literal" (.text value)
  | .bits value => .kindOf "bit_literal" (.number value.toNat)
  | .currentTimestamp => .kind "current_timestamp"
  | .unclassified raw => .kindOf "unclassified" (.text raw)

/-- A qualifier as JSON. -/
def Qualifier.toJson : Qualifier → Json
  | .notNull => .kind "not_null"
  | .null => .kind "null"
  | .primaryKey => .kind "primary_key"
  | .autoIncrement => .kind "auto_increment"
  | .characterSet name => .kindOf "character_set" (.text name)
  | .collate name => .kindOf "collate" (.text name)
  | .uniqueKey => .kind "unique_key"
  | .key => .kind "key"
  | .default value => .kindOf "default" value.toJson

/-- A column as JSON. -/
def Field.toJson (f : Field) : Json :=
  .record
    [("name", .text f.name), ("type", .text f.type), ("type_args", .ofTexts f.args),
      ("qualifiers", .array (f.qualifiers.map Qualifier.toJson))]

/-- The name of a storage method in JSON. -/
def IndexMethod.key : IndexMethod → String
  | .btree => "btree"
  | .hash => "hash"
  | .rtree => "rtree"

/-- An index as JSON. -/
def Index.toJson (i : Index) : Json :=
  .record
    [("columns", .ofTexts i.columns), ("name", .ofOption i.name),
      ("structure", .ofOption (i.method.map fun m => m.key.toList)), ("primary", .bool i.primary),
      ("unique", .bool i.unique), ("fulltext", .bool i.fulltext), ("spatial", .bool i.spatial)]

/-- A table as JSON. -/
def Table.toJson (t : Table) : Json :=
  .record
    [("name", .text t.name), ("fields", .array (t.fields.map Field.toJson)),
      ("indices", .array (t.declared.map Index.toJson))]

/-- A statement as JSON. -/
def Statement.toJson : Statement → Json
  | .databaseReference name => .kindOf "database_reference" (.record [("name", .text name)])
  | .createTable t => .kindOf "create_table" t.toJson
  | .ignored => .kind "ignored"

/-- A clause as JSON. -/
def Clause.toJson : Clause → Json
  | .addField f => .kindOf "add_field" f.toJson
  | .dropField name => .kindOf "drop_field" (.text name)
  | .alterField f => .kindOf "alter_field" f.toJson
  | .dropIndex i => .kindOf "drop_index" i.toJson
  | .addIndex i => .kindOf "add_index" i.toJson

/-- A delta as JSON. -/
def Delta.toJson (d : Delta) : Json :=
  .record
    [("creates", .array (d.creates.map Table.toJson)),
      ("alters", .object (d.alters.map fun a => (a.1, .array (a.2.map Clause.toJson)))),
      ("drops", .ofTexts d.drops)]

end SchemaDelta
