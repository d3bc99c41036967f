/-
**What leads from one schema to another.**

A delta lists the tables to create, the clauses by which each table that stays is altered, and the
tables to drop.

Main definitions:

* `SchemaDelta.Clause` — one change of a table;
* `SchemaDelta.Delta` — the changes of a schema;
* `SchemaDelta.Delta.ofParts` — a delta from alterations in any order;
* `SchemaDelta.Delta.isEmpty`, `SchemaDelta.Delta.statementCount` — how much there is to do;
* `SchemaDelta.Clause.sameDefinition`, `SchemaDelta.Delta.sameDefinition` — equality that leaves out
  the names of columns.
-/

import SchemaDelta.Schema

set_option relaxedAutoImplicit false
set_option autoImplicit false

namespace SchemaDelta

/-- One change of a table. -/
inductive Clause where
  /-- A new column. -/
  | addField (field : Field)
  /-- The removal of the column of a name. -/
  | dropField (name : Text)
  /-- A new definition for the column of the same name. -/
  | alterField (field : Field)
  /-- The removal of an index. -/
  | dropIndex (index : Index)
  /-- A new index. -/
  | addIndex (index : Index)
  deriving Repr, DecidableEq

/-- Whether two clauses agree when the names of columns in definitions are left out. -/
def Clause.sameDefinition : Clause → Clause → Bool
  | .addField f, .addField g => f.sameDefinition g
  | .dropField n, .dropField m => n == m
  | .alterField f, .alterField g => f.sameDefinition g
  | .dropIndex i, .dropIndex j => i == j
  | .addIndex i, .addIndex j => i == j
  | _, _ => false

/-- The changes that lead from one schema to another. -/
structure Delta where
  /-- The tables to create. -/
  creates : List Table
  /-- The tables to alter in ascending order of their names, each with its clauses. -/
  alters : List (Text × List Clause)
  /-- The names of the tables to drop. -/
  drops : List Text
  deriving Repr, DecidableEq

namespace Delta

/-- The delta with the given alterations, put into ascending order of the table names. -/
def ofParts (creates : List Table) (alters : List (Text × List Clause)) (drops : List Text) :
    Delta :=
  ⟨creates, (lastByName Prod.fst alters).map Prod.snd, drops⟩

/-- Whether there is nothing to do. -/
def isEmpty (d : Delta) : Bool :=
  d.creates.isEmpty && d.alters.isEmpty && d.drops.isEmpty

/-- The number of statements that create, alter or drop a table. -/
def statementCount (d : Delta) : Nat :=
  d.creates.length + d.alters.length + d.drops.length

/-- Whether two alterations are of the same table and agree clause by clause. -/
def sameAlteration (a b : Text × List Clause) : Bool :=
  a.1 == b.1 && agreeAll Clause.sameDefinition a.2 b.2

/-- Whether two deltas agree when the names of columns in definitions are left out. -/
def sameDefinition (d e : Delta) : Bool :=
  agreeAll Table.sameDefinition d.creates e.creates &&
    agreeAll sameAlteration d.alters e.alters && d.drops == e.drops

theorem isEmpty_iff {d : Delta} :
    d.isEmpty = true ↔ d.creates = [] ∧ d.alters = [] ∧ d.drops = [] := by
  simp [isEmpty, and_assoc]

end Delta

end SchemaDelta
