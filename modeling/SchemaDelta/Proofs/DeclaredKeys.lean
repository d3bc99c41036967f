/-
**Keys that are declared beside the columns.**

A key on one column can be written as a qualifier of the column or be declared beside the columns.
When all qualifiers that describe an index are taken from the columns, and the indices that the
columns implied are declared in their place, behind the others, the indices of the table are the same
ones in the same order, and as these qualifiers have no part in the definition of a column, the
columns are the same as well.

Of an earlier table a delta sees no more than the names of the columns in order, the definition of
the last column of each name, and the indices in order.  So the two ways of writing keys can be
exchanged in the earlier schema without any effect on what leads to a later one, and nothing leads
from either way to the other.

Main definitions:

* `SchemaDelta.Table.Alike` — two tables that a delta cannot tell from each other as earlier ones;
* `SchemaDelta.Field.withoutKeys`, `SchemaDelta.Table.declareKeys`, `SchemaDelta.Schema.declareKeys`
  — keys of columns become declared ones.

Main results:

* `SchemaDelta.Table.Alike.clausesTo_eq` — the same clauses lead from alike tables to a later one;
* `SchemaDelta.Table.alike_declareKeys` — declaring keys gives an alike table;
* `SchemaDelta.Delta.between_mapTables` — schemas of alike tables have the same deltas;
* `SchemaDelta.Delta.between_declareKeys` — **declaring the keys of columns is no change**.
-/

import SchemaDelta.Proofs.Identity
import SchemaDelta.Proofs.ImpliedIndex

set_option relaxedAutoImplicit false
set_option autoImplicit false

namespace SchemaDelta

/-! ### What a delta sees of an earlier table -/

/-- Two tables have the same column names in order, the same definitions under each name and the
same indices in order. -/
structure Table.Alike (b b' : Table) : Prop where
  /-- The columns have the same names, one after the other. -/
  names : b.fields.map Field.name = b'.fields.map Field.name
  /-- The last columns of one name have the same definition. -/
  definitions : ∀ name,
    Option.Rel (fun f g => f.sameDefinition g = true) (b.field? name) (b'.field? name)
  /-- The indices are the same ones, one after the other. -/
  indices : b.indices = b'.indices

namespace Table

variable {b b' : Table}

theorem Alike.isNone_field?_eq (h : b.Alike b') (name : Text) :
    (b.field? name).isNone = (b'.field? name).isNone := by
  have hname := h.definitions name
  generalize b.field? name = previous, b'.field? name = previous' at hname ⊢
  cases hname with
  | none => rfl
  | some _ => rfl

theorem Alike.addedFields_eq (h : b.Alike b') (a : Table) : addedFields b a = addedFields b' a :=
  List.filter_congr fun f _ => h.isNone_field?_eq f.name

theorem Alike.droppedFields_eq (h : b.Alike b') (a : Table) :
    droppedFields b a = droppedFields b' a := by
  -- which columns are dropped is asked of their names alone
  have hnames : ∀ t : Table, droppedFields t a =
      (t.fields.map Field.name).filter fun name => (a.field? name).isNone := fun t =>
    (List.filter_map (f := Field.name) (p := fun name => (a.field? name).isNone)).symm
  rw [hnames, hnames, h.names]

theorem Alike.alteredFields_eq (h : b.Alike b') (a : Table) (o : Options) :
    alteredFields b a o = alteredFields b' a o := by
  refine List.filter_congr fun f _ => ?_
  have hname := h.definitions f.name
  generalize b.field? f.name = found, b'.field? f.name = found' at hname ⊢
  cases hname with
  | none => rfl
  | @some previous previous' hsame =>
      have heq : previous.sameDefinition f = previous'.sameDefinition f :=
        Bool.eq_iff_iff.2 ⟨Field.sameDefinition_trans (Field.sameDefinition_symm hsame),
          Field.sameDefinition_trans hsame⟩
      exact congrArg (fun same => o.alterUnchanged || !same) heq

/-- **The same clauses lead from alike tables to a later one.** -/
theorem Alike.clausesTo_eq (h : b.Alike b') (a : Table) (o : Options) :
    b.clausesTo a o = b'.clausesTo a o := by
  have hgone : droppedIndices b a = droppedIndices b' a := by
    rw [droppedIndices, droppedIndices, h.indices]
  have hnew : addedIndices b a = addedIndices b' a := by
    rw [addedIndices, addedIndices, h.indices]
  rw [clausesTo, clausesTo, h.addedFields_eq, h.droppedFields_eq, h.alteredFields_eq, hgone, hnew]

end Table

namespace Delta

variable {g : Table → Table}

/-- **Schemas of alike tables have the same deltas to a later schema.** -/
theorem between_mapTables (hname : ∀ t, (g t).name = t.name) (hg : ∀ t : Table, t.Alike (g t))
    (before after : Schema) (o : Options) :
    between (before.mapTables g) after o = between before after o := by
  have htables : ∀ name, (before.mapTables g).hasTable name = before.hasTable name := fun name => by
    rw [Schema.hasTable, Schema.hasTable, Schema.table?_mapTables hname, Option.isSome_map]
  have halteration : (before.mapTables g).alteration? o = before.alteration? o := by
    funext entry
    rw [Schema.alteration?, Schema.alteration?, Schema.table?_mapTables hname]
    cases before.table? entry.1 with
    | none => rfl
    | some b =>
        dsimp only [Option.map_some]
        rw [← (hg b).clausesTo_eq]
  simp only [between, htables, halteration, Schema.tableNames_mapTables hname]

end Delta

/-! ### Keys of columns -/

namespace Field

/-- The column without the qualifiers that describe an index. -/
def withoutKeys (f : Field) : Field :=
  { f with qualifiers := f.qualifiers.filter fun q => !q.isIndex }

variable {f g : Field}

@[simp] theorem name_withoutKeys : f.withoutKeys.name = f.name := rfl

/-- Only qualifiers that have no part in the definition are taken away. -/
theorem sameDefinition_withoutKeys : f.sameDefinition f.withoutKeys = true :=
  sameDefinition_iff.2 ⟨rfl, rfl, by simp [comparable, withoutKeys]⟩

/-- Nothing is left that implies an index. -/
theorem index?_withoutKeys : f.withoutKeys.index? = none := by
  have hnone : f.withoutKeys.qualifiers.find? Qualifier.isIndex = none := by
    rw [List.find?_eq_none]
    intro q hq
    simpa using (List.mem_filter.1 hq).2
  rw [index?_eq_find?, hnone, Option.bind_none]

end Field

namespace Table

/-- The table with the indices that columns imply declared behind the others, and no qualifier of a
column that describes one. -/
def declareKeys (t : Table) : Table where
  name := t.name
  fields := t.fields.map Field.withoutKeys
  declared := t.declared ++ t.fields.filterMap Field.index?

variable {t : Table}

@[simp] theorem name_declareKeys : t.declareKeys.name = t.name := rfl

theorem map_name_fields_declareKeys :
    t.declareKeys.fields.map Field.name = t.fields.map Field.name := by
  rw [declareKeys, List.map_map]
  rfl

theorem field?_declareKeys (name : Text) :
    t.declareKeys.field? name = (t.field? name).map Field.withoutKeys :=
  lastNamed?_map (fun _ => Field.name_withoutKeys) name t.fields

/-- The indices are the same ones, and stand in the same order. -/
theorem indices_declareKeys : t.declareKeys.indices = t.indices := by
  have himplied : t.declareKeys.fields.filterMap Field.index? = [] := by
    rw [declareKeys, List.filterMap_map, List.filterMap_eq_nil_iff]
    exact fun f _ => Field.index?_withoutKeys
  rw [indices, himplied, List.append_nil]
  rfl

theorem DistinctColumns.declareKeys (h : t.DistinctColumns) : t.declareKeys.DistinctColumns := by
  rw [DistinctColumns, map_name_fields_declareKeys]
  exact h

/-- **Declaring the keys of columns gives an alike table.** -/
theorem alike_declareKeys (t : Table) : t.Alike t.declareKeys where
  names := map_name_fields_declareKeys.symm
  definitions name := by
    rw [field?_declareKeys]
    cases t.field? name with
    | none => exact .none
    | some f => exact .some Field.sameDefinition_withoutKeys
  indices := indices_declareKeys.symm

end Table

/-! ### Keys of schemas -/

/-- The schema with the keys of columns declared beside them. -/
def Schema.declareKeys (s : Schema) : Schema :=
  s.mapTables Table.declareKeys

namespace Delta

/-- What leads to a later schema does not depend on how keys are written in the earlier one. -/
theorem between_declareKeys_left (before after : Schema) (o : Options) :
    between before.declareKeys after o = between before after o :=
  between_mapTables (fun _ => Table.name_declareKeys) Table.alike_declareKeys before after o

/-- **Declaring the keys of columns is no change.**  There is nothing to do in either direction, and
from either schema the same leads to any other one. -/
theorem between_declareKeys {s : Schema} (hs : s.DistinctColumns) :
    ((between s s.declareKeys .skipUnchanged).isEmpty = true ∧
        (between s.declareKeys s .skipUnchanged).isEmpty = true) ∧
      ∀ after o, between s.declareKeys after o = between s after o := by
  have hdeclared : s.declareKeys.DistinctColumns := hs.mapTables fun _ ht => ht.declareKeys
  refine ⟨⟨?_, ?_⟩, fun after o => between_declareKeys_left s after o⟩
  · rw [← between_declareKeys_left]
    exact isEmpty_between_self_of_distinct hdeclared
  · rw [between_declareKeys_left]
    exact isEmpty_between_self_of_distinct hs

/-- Keys of several columns, one of them with both qualifiers, beside a declared one. -/
theorem between_declareKeys_mixed :
    let column : Text → List Qualifier → Field := fun name qs => ⟨name, "int".toList, [], qs⟩
    let s : Schema := ⟨[.ignored, .createTable ⟨['t'], [column ['a'] [.uniqueKey, .notNull, .primaryKey],
      column ['b'] [.null], column ['c'] [.primaryKey]], [.uniqueOn ['b']]⟩]⟩
    let after : Schema := ⟨[.createTable ⟨['t'], [column ['c'] [.uniqueKey], column ['d'] []], []⟩]⟩
    s.declareKeys = ⟨[.ignored, .createTable ⟨['t'], [column ['a'] [.notNull], column ['b'] [.null],
      column ['c'] []], [.uniqueOn ['b'], .uniqueOn ['a'], .primaryOn ['c']]⟩]⟩ ∧
      (between s s.declareKeys .skipUnchanged).isEmpty = true ∧
      (between s.declareKeys after .skipUnchanged).clausesFor ['t'] =
        [.addField (column ['d'] []), .dropField ['a'], .dropField ['b'],
          .dropIndex (.uniqueOn ['b']), .dropIndex (.uniqueOn ['a']), .dropIndex (.primaryOn ['c']),
          .addIndex (.uniqueOn ['c'])] := by
  intro column s after
  obtain ⟨⟨hforth, -⟩, hother⟩ := between_declareKeys (s := s) (by decide)
  exact ⟨by decide, hforth, by rw [hother]; decide⟩

end Delta

end SchemaDelta
