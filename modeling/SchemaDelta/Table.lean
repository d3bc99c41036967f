/-
**Tables.**

A table has columns and declared indices.  The indices that count when tables are compared are the
declared ones followed by those that the columns imply.

Main definitions:

* `SchemaDelta.Table` — a table;
* `SchemaDelta.Table.indices` — its declared and its implied indices;
* `SchemaDelta.Table.field?`, `SchemaDelta.Table.fieldsByName` — columns by name, of which the last
  one counts;
* `SchemaDelta.Table.sameDefinition` — equality that leaves out the names of columns.
-/

import SchemaDelta.Field
import SchemaDelta.Naming

set_option relaxedAutoImplicit false
set_option autoImplicit false

namespace SchemaDelta

/-- Two lists agree place by place under a relation, and have the same length. -/
def agreeAll {α : Type} (r : α → α → Bool) : List α → List α → Bool
  | [], [] => true
  | a :: as, b :: bs => r a b && agreeAll r as bs
  | _, _ => false

/-- A table of a schema. -/
structure Table where
  /-- The name of the table. -/
  name : Text
  /-- The columns in order. -/
  fields : List Field
  /-- The indices that are declared beside the columns, in order. -/
  declared : List Index
  deriving Repr, DecidableEq

namespace Table

/-- The declared indices followed by those that the columns imply. -/
def indices (t : Table) : List Index :=
  t.declared ++ t.fields.filterMap Field.index?

/-- The last column of a name. -/
def field? (t : Table) (name : Text) : Option Field :=
  lastNamed? Field.name name t.fields

/-- Every column name with the last column that bears it. -/
def fieldsByName (t : Table) : List (Text × Field) :=
  lastByName Field.name t.fields

/-- Whether two tables agree in their names, their declared indices and the definitions of their
columns in order. -/
def sameDefinition (t u : Table) : Bool :=
  t.name == u.name && agreeAll Field.sameDefinition t.fields u.fields && t.declared == u.declared

theorem mem_indices {t : Table} {i : Index} :
    i ∈ t.indices ↔ i ∈ t.declared ∨ ∃ f ∈ t.fields, f.index? = some i := by
  simp [indices]

theorem field?_isSome_iff {t : Table} {name : Text} :
    (t.field? name).isSome ↔ ∃ f ∈ t.fields, f.name = name :=
  lastNamed?_isSome_iff

end Table

end SchemaDelta
