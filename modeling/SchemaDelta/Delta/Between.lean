/-
**The delta between two schemas.**

Tables are matched by name.  Those of the later schema that the earlier one lacks are created, those
of the earlier one that the later one lacks are dropped, and a table that both have is altered: its
columns are matched by name, its indices as wholes.

Main definitions:

* `SchemaDelta.Options` — whether columns without a change are altered nevertheless;
* `SchemaDelta.Table.clausesTo` — the clauses that lead from one table to another;
* `SchemaDelta.Delta.between` — the delta that leads from one schema to another.
-/

import SchemaDelta.Delta.Basic

set_option relaxedAutoImplicit false
set_option autoImplicit false

namespace SchemaDelta

/-- How thorough a delta is. -/
structure Options where
  /-- Whether every column that both tables have is altered, with or without a change. -/
  alterUnchanged : Bool := true
  deriving Repr, DecidableEq

/-- Only columns whose definition changed are altered. -/
def Options.skipUnchanged : Options where
  alterUnchanged := false

namespace Table

variable (before after : Table)

/-- The columns that only the later table has. -/
def addedFields : List Field :=
  after.fields.filter fun f => (before.field? f.name).isNone

/-- The names of the columns that only the earlier table has. -/
def droppedFields : List Text :=
  (before.fields.filter fun f => (after.field? f.name).isNone).map Field.name

/-- The columns that both tables have and that are to be altered, as the later table has them. -/
def alteredFields (o : Options) : List Field :=
  after.fields.filter fun f =>
    match before.field? f.name with
    | some previous => o.alterUnchanged || !previous.sameDefinition f
    | none => false

/-- The indices that only the earlier table has. -/
def droppedIndices : List Index :=
  before.indices.filter fun i => !after.indices.contains i

/-- The indices that only the later table has. -/
def addedIndices : List Index :=
  after.indices.filter fun i => !before.indices.contains i

/-- The clauses that lead from one table to another: columns are added, dropped and altered, then
indices are dropped and added. -/
def clausesTo (o : Options) : List Clause :=
  (addedFields before after).map .addField ++ (droppedFields before after).map .dropField ++
    (alteredFields before after o).map .alterField ++
    (droppedIndices before after).map .dropIndex ++ (addedIndices before after).map .addIndex

end Table

/-- The alteration of a table of the later schema, if the earlier one has a table of its name and
there is something to do. -/
def Schema.alteration? (before : Schema) (o : Options) (entry : Text × Table) :
    Option (Text × List Clause) :=
  match before.table? entry.1 with
  | none => none
  | some previous =>
    match previous.clausesTo entry.2 o with
    | [] => none
    | c :: cs => some (entry.1, c :: cs)

/-- The delta that leads from one schema to another. -/
def Delta.between (before after : Schema) (o : Options) : Delta where
  creates := after.tables.filter fun t => !before.hasTable t.name
  alters := after.tablesByName.filterMap (before.alteration? o)
  drops := before.tableNames.filter fun name => !after.hasTable name

end SchemaDelta
