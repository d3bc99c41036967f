/-
**Columns.**

A column has a name, a type with arguments, and qualifiers.  Two of the qualifiers, `PRIMARY KEY`
and `UNIQUE KEY`, describe an index on the column rather than the column itself; they are left out
when columns are compared, and the first of them gives the index that the column implies.

The name is what a column is looked up by, so that two columns have the same definition when all
but their names agree.

Main definitions:

* `SchemaDelta.DefaultValue`, `SchemaDelta.Qualifier`, `SchemaDelta.Field` — columns and their parts;
* `SchemaDelta.Field.comparable` — the qualifiers that describe the column itself;
* `SchemaDelta.Field.index?` — the index that the qualifiers imply;
* `SchemaDelta.Field.sameDefinition`, `SchemaDelta.Field.identical` — equality without and with the
  name.

Main results:

* `SchemaDelta.Field.sameDefinition_iff` — what agreement of definitions means;
* `SchemaDelta.Field.sameDefinition_refl`, `SchemaDelta.Field.sameDefinition_symm`,
  `SchemaDelta.Field.sameDefinition_trans` — it is an equivalence.
-/

import SchemaDelta.Index

set_option relaxedAutoImplicit false
set_option autoImplicit false

namespace SchemaDelta

/-- The value that a column takes when none is given. -/
inductive DefaultValue where
  /-- A string, with its escapes resolved. -/
  | text (value : Text)
  /-- A number written as bits. -/
  | bits (value : UInt64)
  /-- The time of the change. -/
  | currentTimestamp
  /-- Any other word, as it is written. -/
  | unclassified (raw : Text)
  deriving Repr, DecidableEq

/-- What is said about a column after its type. -/
inductive Qualifier where
  | notNull
  | null
  | primaryKey
  | autoIncrement
  | characterSet (name : Text)
  | collate (name : Text)
  | uniqueKey
  | key
  | default (value : DefaultValue)
  deriving Repr, DecidableEq

/-- Whether a qualifier describes an index rather than the column. -/
def Qualifier.isIndex : Qualifier → Bool
  | .primaryKey | .uniqueKey => true
  | _ => false

/-- A column of a table. -/
structure Field where
  /-- The name of the column. -/
  name : Text
  /-- The name of the type, in lower case. -/
  type : Text
  /-- The arguments of the type as they are written. -/
  args : List Text
  /-- The qualifiers in order. -/
  qualifiers : List Qualifier
  deriving Repr, DecidableEq

namespace Field

/-- The qualifiers that describe the column itself. -/
def comparable (f : Field) : List Qualifier :=
  f.qualifiers.filter fun q => !q.isIndex

/-- The index that a column implies: that of its first qualifier that describes one. -/
def index? (f : Field) : Option Index :=
  f.qualifiers.findSome? fun
    | .primaryKey => some (.primaryOn f.name)
    | .uniqueKey => some (.uniqueOn f.name)
    | _ => none

/-- Whether two columns agree in all but their names. -/
def sameDefinition (f g : Field) : Bool :=
  f.type == g.type && f.args == g.args && f.comparable == g.comparable

/-- Whether two columns agree in their definitions and their names. -/
def identical (f g : Field) : Bool :=
  f.name == g.name && f.sameDefinition g

theorem sameDefinition_iff {f g : Field} :
    f.sameDefinition g = true ↔
      f.type = g.type ∧ f.args = g.args ∧ f.comparable = g.comparable := by
  simp [sameDefinition, and_assoc]

@[simp] theorem sameDefinition_refl (f : Field) : f.sameDefinition f = true := by
  simp [sameDefinition_iff]

theorem sameDefinition_symm {f g : Field} (h : f.sameDefinition g = true) :
    g.sameDefinition f = true := by
  obtain ⟨ht, ha, hq⟩ := sameDefinition_iff.1 h
  exact sameDefinition_iff.2 ⟨ht.symm, ha.symm, hq.symm⟩

theorem sameDefinition_trans {f g k : Field} (h : f.sameDefinition g = true)
    (h' : g.sameDefinition k = true) : f.sameDefinition k = true := by
  obtain ⟨ht, ha, hq⟩ := sameDefinition_iff.1 h
  obtain ⟨ht', ha', hq'⟩ := sameDefinition_iff.1 h'
  exact sameDefinition_iff.2 ⟨ht.trans ht', ha.trans ha', hq.trans hq'⟩

theorem identical_iff {f g : Field} :
    f.identical g = true ↔ f.name = g.name ∧ f.sameDefinition g = true := by
  simp [identical]

@[simp] theorem identical_refl (f : Field) : f.identical f = true := by
  simp [identical_iff]

end Field

end SchemaDelta
