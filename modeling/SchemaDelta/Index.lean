/-
**Indices.**

An index covers columns of a table, the leading one first.  Two indices are the same when all of
their attributes agree, their names included.

Main definitions:

* `SchemaDelta.IndexMethod` — the storage methods that a declaration may ask for;
* `SchemaDelta.Index` — an index;
* `SchemaDelta.Index.primaryOn`, `SchemaDelta.Index.uniqueOn` — the unnamed indices of one column
  that a column definition may imply;
* `SchemaDelta.Index.leading` — the leading column.
-/

import SchemaDelta.Text.Basic

set_option relaxedAutoImplicit false
set_option autoImplicit false

namespace SchemaDelta

/-- How an index is stored. -/
inductive IndexMethod where
  | btree
  | hash
  | rtree
  deriving Repr, DecidableEq

/-- An index of a table. -/
structure Index where
  /-- The covered columns in order. -/
  columns : List Text
  /-- The name, if one was given. -/
  name : Option Text := none
  /-- The storage method, if one was asked for. -/
  method : Option IndexMethod := none
  /-- Whether this is the primary key. -/
  primary : Bool := false
  /-- Whether values may not repeat. -/
  unique : Bool := false
  /-- Whether this is an index for text search. -/
  fulltext : Bool := false
  /-- Whether this is an index on geometry. -/
  spatial : Bool := false
  deriving Repr, DecidableEq

namespace Index

/-- The primary key on one column. -/
def primaryOn (column : Text) : Index :=
  { columns := [column], primary := true }

/-- The unique index on one column. -/
def uniqueOn (column : Text) : Index :=
  { columns := [column], unique := true }

/-- The leading column, and no text where there are no columns. -/
def leading (i : Index) : Text :=
  i.columns.headD []

end Index

end SchemaDelta
