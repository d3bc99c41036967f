/-
**The first qualifier decides.**

A column implies one index at most, that of the first of its qualifiers that describes one.  Every
further qualifier of the other kind is left out of the indices of the table; and since qualifiers
that describe indices do not count when columns are compared, nothing is left of it at all.

So a further `PRIMARY KEY` or `UNIQUE KEY` of a column makes a difference between two schemas exactly
where no such qualifier stands in front of it.  A delta that alters unchanged columns as well is
never empty between schemas with a column in common, whatever their qualifiers are.

Main definitions:

* `SchemaDelta.Qualifier.index?` — the index that a qualifier describes;
* `SchemaDelta.Schema.mapTables` — the same change of every table;
* `SchemaDelta.Field.qualifyAt`, `SchemaDelta.Table.qualifyAt`, `SchemaDelta.Schema.qualify` — a
  further qualifier for one column.

Main results:

* `SchemaDelta.Field.index?_eq_find?` — the first qualifier that describes an index gives it;
* `SchemaDelta.Schema.equivalent_qualify_iff` — when a further qualifier makes no difference;
* `SchemaDelta.Schema.first_qualifier_decides` — **which qualifiers are represented**, and which
  ones a delta finds.
-/

import SchemaDelta.Proofs.Equivalence
import SchemaDelta.Proofs.Reading

set_option relaxedAutoImplicit false
set_option autoImplicit false

namespace SchemaDelta

/-! ### Qualifiers and indices -/

/-- The index that a qualifier describes on the column of the given name. -/
def Qualifier.index? (column : Text) : Qualifier → Option Index
  | .primaryKey => some (.primaryOn column)
  | .uniqueKey => some (.uniqueOn column)
  | _ => none

theorem Qualifier.isIndex_of_index? {column : Text} {q : Qualifier} {i : Index}
    (h : q.index? column = some i) : q.isIndex = true := by
  cases q with
  | primaryKey | uniqueKey => rfl
  | notNull | null | autoIncrement | characterSet | collate | key | default => cases h

namespace Field

/-- The column with a further qualifier in front of the `n`-th one, if it has the given name. -/
def qualifyAt (column : Text) (n : Nat) (q : Qualifier) (f : Field) : Field :=
  if f.name = column then { f with qualifiers := f.qualifiers.take n ++ q :: f.qualifiers.drop n }
  else f

variable {column : Text} {n : Nat} {q : Qualifier} {f : Field}

@[simp] theorem name_qualifyAt : (f.qualifyAt column n q).name = f.name := by
  rw [qualifyAt]
  split <;> rfl

/-- **The first qualifier that describes an index gives the one that the column implies.** -/
theorem index?_eq_find? (f : Field) :
    f.index? = (f.qualifiers.find? Qualifier.isIndex).bind (Qualifier.index? f.name) := by
  rw [index?]
  induction f.qualifiers with
  | nil => rfl
  | cons q qs ih =>
      rw [List.findSome?_cons, List.find?_cons, ih]
      cases q <;> rfl

/-- The index that a column implies is on the column alone. -/
theorem eq_of_index? {i : Index} (h : f.index? = some i) :
    i = .primaryOn f.name ∨ i = .uniqueOn f.name := by
  obtain ⟨q, -, hq⟩ := List.exists_of_findSome?_eq_some h
  cases q with
  | primaryKey => exact .inl (Option.some.inj hq).symm
  | uniqueKey => exact .inr (Option.some.inj hq).symm
  | notNull | null | autoIncrement | characterSet | collate | key | default => cases hq

/-- Qualifiers that describe indices have no part in the definition of the column itself. -/
theorem sameDefinition_qualifyAt (hq : q.isIndex = true) :
    f.sameDefinition (f.qualifyAt column n q) = true := by
  rw [sameDefinition_iff, qualifyAt]
  split
  · refine ⟨rfl, rfl, ?_⟩
    simp only [comparable, List.filter_append, List.filter_cons, hq, Bool.not_true,
      Bool.false_eq_true, ↓reduceIte]
    rw [← List.filter_append, List.take_append_drop]
  · exact ⟨rfl, rfl, rfl⟩

/-- A further qualifier behind one that describes an index does not change what is implied. -/
theorem index?_qualifyAt_of_any (h : (f.qualifiers.take n).any Qualifier.isIndex = true) :
    (f.qualifyAt column n q).index? = f.index? := by
  rw [index?_eq_find?, index?_eq_find?, name_qualifyAt, qualifyAt]
  split
  · have hsome : ((f.qualifiers.take n).find? Qualifier.isIndex).isSome = true := by
      simpa [List.find?_isSome] using h
    obtain ⟨p, hp⟩ := Option.isSome_iff_exists.1 hsome
    have hbefore : f.qualifiers.find? Qualifier.isIndex = some p := by
      rw [← List.take_append_drop n f.qualifiers, List.find?_append, hp, Option.some_or]
    rw [List.find?_append, hp, Option.some_or, hbefore]
  · rfl

/-- In front of all of them it decides. -/
theorem index?_qualifyAt_of_not_any (h : (f.qualifiers.take n).any Qualifier.isIndex = false)
    (hq : q.isIndex = true) : (f.qualifyAt f.name n q).index? = q.index? f.name := by
  have hnone : (f.qualifiers.take n).find? Qualifier.isIndex = none := by
    rw [List.find?_eq_none]
    exact List.any_eq_false.1 h
  rw [index?_eq_find?, name_qualifyAt, qualifyAt, if_pos rfl, List.find?_append, hnone,
    Option.none_or, List.find?_cons_of_pos hq, Option.bind_some]

end Field

/-! ### A further qualifier -/

namespace Table

/-- The table with a further qualifier for one of its columns, if it has the given name. -/
def qualifyAt (table column : Text) (n : Nat) (q : Qualifier) (t : Table) : Table :=
  if t.name = table then { t with fields := t.fields.map (Field.qualifyAt column n q) } else t

variable {table column : Text} {n : Nat} {q : Qualifier} {t : Table}

@[simp] theorem name_qualifyAt : (t.qualifyAt table column n q).name = t.name := by
  rw [qualifyAt]
  split <;> rfl

theorem fields_qualifyAt (t : Table) : (t.qualifyAt t.name column n q).fields =
    t.fields.map (Field.qualifyAt column n q) := by
  rw [qualifyAt, if_pos rfl]

theorem map_name_fields_qualifyAt :
    (t.qualifyAt table column n q).fields.map Field.name = t.fields.map Field.name := by
  rw [qualifyAt]
  split
  · rw [List.map_map]
    exact List.map_congr_left fun f _ => Field.name_qualifyAt
  · rfl

theorem DistinctColumns.qualifyAt (h : t.DistinctColumns) :
    (t.qualifyAt table column n q).DistinctColumns := by
  rw [DistinctColumns, map_name_fields_qualifyAt]
  exact h

theorem Equivalent.refl (t : Table) : t.Equivalent t where
  names _ := Iff.rfl
  definitions name f g hf hg := by
    rw [hf] at hg
    cases hg
    exact Field.sameDefinition_refl f
  indices _ := Iff.rfl

/-- Only the indices tell a table from the one with a further qualifier that describes an index. -/
theorem equivalent_qualifyAt_iff (hq : q.isIndex = true) :
    t.Equivalent (t.qualifyAt table column n q) ↔
      ∀ i, i ∈ t.indices ↔ i ∈ (t.qualifyAt table column n q).indices := by
  refine ⟨Equivalent.indices, fun h => ⟨fun name => ?_, fun name f g hf hg => ?_, h⟩⟩
  · have hnames : name ∈ t.fields.map Field.name ↔
        name ∈ (t.qualifyAt table column n q).fields.map Field.name := by
      rw [map_name_fields_qualifyAt]
    simpa only [List.mem_map] using hnames
  · rw [qualifyAt] at hg
    split at hg
    · rw [field?, lastNamed?_map fun _ => Field.name_qualifyAt] at hg
      rw [field?] at hf
      rw [hf] at hg
      cases hg
      exact Field.sameDefinition_qualifyAt hq
    · rw [hf] at hg
      cases hg
      exact Field.sameDefinition_refl f

/-- **A further qualifier brings its index into the table** exactly where it comes first. -/
theorem indices_qualifyAt_iff {f : Field} {i : Index} (ht : t.DistinctColumns) (hf : f ∈ t.fields)
    (hq : q.index? f.name = some i) (hi : i ∉ t.indices) :
    (∀ j, j ∈ t.indices ↔ j ∈ (t.qualifyAt t.name f.name n q).indices) ↔
      (f.qualifiers.take n).any Qualifier.isIndex = true := by
  have hindex : q.isIndex = true := Qualifier.isIndex_of_index? hq
  constructor
  · intro hsame
    by_contra hnone
    rw [Bool.not_eq_true] at hnone
    refine hi ((hsame i).2 (mem_indices.2 (.inr ⟨f.qualifyAt f.name n q, ?_, ?_⟩)))
    · rw [fields_qualifyAt]
      exact List.mem_map_of_mem hf
    · rw [Field.index?_qualifyAt_of_not_any hnone hindex, hq]
  · intro hany j
    -- the column is the only one of its name, and the index that it implies stays the same
    have hkept : ∀ g ∈ t.fields, (g.qualifyAt f.name n q).index? = g.index? := by
      intro g hg
      by_cases hname : g.name = f.name
      · obtain rfl := eq_of_nameOf_eq ht hg hf hname
        exact Field.index?_qualifyAt_of_any hany
      · rw [Field.qualifyAt, if_neg hname]
    have himplied : (t.qualifyAt t.name f.name n q).indices = t.indices := by
      rw [indices, indices, fields_qualifyAt, List.filterMap_map, qualifyAt, if_pos rfl]
      exact congrArg _ (List.filterMap_congr hkept)
    rw [himplied]

end Table

namespace Schema

/-! ### A change of every table -/

/-- The schema with every table changed in the same way. -/
def mapTables (g : Table → Table) (s : Schema) : Schema :=
  ⟨s.statements.map fun
    | .createTable t => .createTable (g t)
    | other => other⟩

section MapTables

variable {s : Schema} {g : Table → Table}

theorem tables_mapTables : (s.mapTables g).tables = s.tables.map g := by
  rw [tables, tables, mapTables, List.filterMap_map, List.map_filterMap]
  refine List.filterMap_congr fun st _ => ?_
  cases st <;> rfl

theorem tableNames_mapTables (hg : ∀ t, (g t).name = t.name) :
    (s.mapTables g).tableNames = s.tableNames := by
  rw [tableNames, tables_mapTables, List.map_map]
  exact List.map_congr_left fun t _ => hg t

theorem table?_mapTables (hg : ∀ t, (g t).name = t.name) (name : Text) :
    (s.mapTables g).table? name = (s.table? name).map g := by
  rw [table?, tables_mapTables, lastNamed?_map hg]
  rfl

theorem DistinctColumns.mapTables (h : s.DistinctColumns)
    (hg : ∀ t, t.DistinctColumns → (g t).DistinctColumns) : (s.mapTables g).DistinctColumns := by
  intro t' ht'
  rw [tables_mapTables] at ht'
  obtain ⟨t, ht, rfl⟩ := List.mem_map.1 ht'
  exact hg t (h t ht)

end MapTables

/-! ### A further qualifier for a column of a schema -/

/-- The schema with a further qualifier for one column. -/
def qualify (s : Schema) (table column : Text) (n : Nat) (q : Qualifier) : Schema :=
  ⟨s.statements.map fun
    | .createTable t => .createTable (t.qualifyAt table column n q)
    | other => other⟩

variable {s : Schema} {t : Table} {f : Field} {table column : Text} {n : Nat} {q : Qualifier}
  {i : Index} {o : Options}

theorem qualify_eq_mapTables :
    s.qualify table column n q = s.mapTables (Table.qualifyAt table column n q) := rfl

theorem tableNames_qualify : (s.qualify table column n q).tableNames = s.tableNames := by
  rw [qualify_eq_mapTables, tableNames_mapTables fun _ => Table.name_qualifyAt]

theorem table?_qualify (name : Text) : (s.qualify table column n q).table? name =
    (s.table? name).map (Table.qualifyAt table column n q) := by
  rw [qualify_eq_mapTables, table?_mapTables fun _ => Table.name_qualifyAt]

theorem DistinctColumns.qualify (h : s.DistinctColumns) :
    (s.qualify table column n q).DistinctColumns :=
  h.mapTables fun _ ht => ht.qualifyAt

/-- **A further qualifier makes no difference exactly behind one that describes an index.** -/
theorem equivalent_qualify_iff (hs : s.tableNames.Nodup) (hcols : s.DistinctColumns)
    (ht : t ∈ s.tables) (hf : f ∈ t.fields) (hq : q.index? f.name = some i) (hi : i ∉ t.indices) :
    s.Equivalent (s.qualify t.name f.name n q) ↔
      (f.qualifiers.take n).any Qualifier.isIndex = true := by
  have hindex : q.isIndex = true := Qualifier.isIndex_of_index? hq
  have hlast : s.table? t.name = some t := lastNamed?_of_mem_of_nodup hs ht
  rw [← Table.indices_qualifyAt_iff (hcols t ht) hf hq hi, ← Table.equivalent_qualifyAt_iff hindex]
  constructor
  · intro h
    exact h.tables t.name t _ hlast (by rw [table?_qualify, hlast]; rfl)
  · intro h
    refine ⟨fun name => by rw [tableNames_qualify], fun name b a hb ha => ?_⟩
    rw [table?_qualify, hb, Option.map_some, Option.some.injEq] at ha
    subst ha
    by_cases hname : b.name = t.name
    · obtain rfl := eq_of_nameOf_eq hs (mem_tables_of_table? hb) ht hname
      exact h
    · rw [Table.qualifyAt, if_neg hname]
      exact Table.Equivalent.refl b

/-- Where unchanged columns are altered as well, there is something to do between all tables that
have a column in common. -/
theorem isEmpty_between_of_common {before after : Schema} {name : Text} {b a : Table} {g : Field}
    (ho : o.alterUnchanged = true) (hb : before.table? name = some b)
    (ha : after.table? name = some a) (hf : (b.field? g.name).isSome) (hg : g ∈ a.fields) :
    (Delta.between before after o).isEmpty = false := by
  rw [← Bool.not_eq_true, Delta.isEmpty_iff, Delta.alters_eq_nil_iff]
  rintro ⟨-, hnil, -⟩
  obtain ⟨f, hf⟩ := Option.isSome_iff_exists.1 hf
  have halter : g ∈ b.alteredFields a o := by
    rw [Table.alteredFields, List.mem_filter, hf]
    exact ⟨hg, by simp [ho]⟩
  have hclause : Clause.alterField g ∈ b.clausesTo a o := by
    simp [Table.clausesTo, halter]
  rw [hnil name b a hb ha] at hclause
  cases hclause

/-- **Which qualifiers are represented.**  The first qualifier of a column that describes an index
is represented in its table.  A further one whose index is not in the table yet is found by a delta,
in either direction, unless it stands behind another one and unchanged columns are passed over. -/
theorem first_qualifier_decides :
    (∀ (t : Table) (f : Field), f ∈ t.fields →
      (f.qualifiers.find? Qualifier.isIndex = some .primaryKey →
        Index.primaryOn f.name ∈ t.indices) ∧
      (f.qualifiers.find? Qualifier.isIndex = some .uniqueKey →
        Index.uniqueOn f.name ∈ t.indices)) ∧
    ∀ (s : Schema) (t : Table) (f : Field) (n : Nat) (q : Qualifier) (i : Index) (o : Options),
      s.tableNames.Nodup → s.DistinctColumns → t ∈ s.tables → f ∈ t.fields →
      q.index? f.name = some i → i ∉ t.indices →
        ((Delta.between s (s.qualify t.name f.name n q) o).isEmpty = true ↔
          o.alterUnchanged = false ∧ (f.qualifiers.take n).any Qualifier.isIndex = true) ∧
        ((Delta.between (s.qualify t.name f.name n q) s o).isEmpty = true ↔
          o.alterUnchanged = false ∧ (f.qualifiers.take n).any Qualifier.isIndex = true) := by
  refine ⟨fun t f hf => ?_, fun s t f n q i o hs hcols ht hf hq hi => ?_⟩
  · have himplied : ∀ i, f.index? = some i → i ∈ t.indices :=
      fun i hi => Table.mem_indices.2 (.inr ⟨f, hf, hi⟩)
    exact ⟨fun h => himplied _ (by rw [Field.index?_eq_find?, h]; rfl),
      fun h => himplied _ (by rw [Field.index?_eq_find?, h]; rfl)⟩
  · have hequivalent := equivalent_qualify_iff (n := n) hs hcols ht hf hq hi
    cases ho : o.alterUnchanged with
    | false =>
        obtain rfl : o = .skipUnchanged := by
          cases o
          exact congrArg _ ho
        have hsymm : (s.qualify t.name f.name n q).Equivalent s ↔
            s.Equivalent (s.qualify t.name f.name n q) := ⟨fun h => h.symm, fun h => h.symm⟩
        rw [Delta.isEmpty_between_skipUnchanged hcols.qualify,
          Delta.isEmpty_between_skipUnchanged hcols, hsymm, hequivalent]
        simp
    | true =>
        have hlast : s.table? t.name = some t := lastNamed?_of_mem_of_nodup hs ht
        have hlast' : (s.qualify t.name f.name n q).table? t.name =
            some (t.qualifyAt t.name f.name n q) := by
          rw [table?_qualify, hlast]
          rfl
        have hmem : f.qualifyAt f.name n q ∈ (t.qualifyAt t.name f.name n q).fields := by
          rw [Table.fields_qualifyAt]
          exact List.mem_map_of_mem hf
        have hforth := isEmpty_between_of_common (g := f.qualifyAt f.name n q) ho hlast hlast'
          (Table.field?_isSome_iff.2 ⟨f, hf, Field.name_qualifyAt.symm⟩) hmem
        have hback := isEmpty_between_of_common (g := f) ho hlast' hlast
          (Table.field?_isSome_iff.2 ⟨_, hmem, Field.name_qualifyAt⟩) hf
        simp [hforth, hback]

/-- A primary key is put behind `NOT NULL`, where nothing describes an index yet. -/
theorem first_qualifier_decides_not_null :
    let f : Field := ⟨['a'], "int".toList, [], [.notNull, .uniqueKey]⟩
    let t : Table := ⟨['t'], [f, ⟨['b'], "int".toList, [], [.null]⟩], [.uniqueOn ['b']]⟩
    let s : Schema := ⟨[.ignored, .createTable t]⟩
    Index.uniqueOn ['a'] ∈ t.indices ∧
      (Delta.between s (s.qualify ['t'] ['a'] 1 .primaryKey) .skipUnchanged).isEmpty = false := by
  intro f t s
  obtain ⟨hrepresented, hfound⟩ := first_qualifier_decides
  have hiff := (hfound s t f 1 .primaryKey (.primaryOn ['a']) .skipUnchanged (by decide) (by decide)
    (by decide) (by decide) rfl (by decide)).1
  refine ⟨(hrepresented t f (by decide)).2 rfl, ?_⟩
  rw [← Bool.not_eq_true, hiff]
  decide

/-- Behind `PRIMARY KEY` the unique key is lost. -/
theorem exists_qualifier_lost :
    ∃ before after t f, Schema.read "CREATE TABLE t (a INT PRIMARY KEY);".toList .mysql = .ok before ∧
      Schema.read "CREATE TABLE t (a INT PRIMARY KEY UNIQUE KEY);".toList .mysql = .ok after ∧
      t ∈ after.tables ∧ f ∈ t.fields ∧ .uniqueKey ∈ f.qualifiers ∧
      Index.uniqueOn f.name ∉ t.indices ∧
      (Delta.between before after .skipUnchanged).isEmpty = true ∧
      (Delta.between after before .skipUnchanged).isEmpty = true := by
  let column : List Qualifier → Field := fun qs => ⟨['a'], "int".toList, [], qs⟩
  let f := column [.primaryKey, .uniqueKey]
  have hbefore : Schema.read "CREATE TABLE t (a INT PRIMARY KEY);".toList .mysql =
      .ok ⟨[.createTable ⟨['t'], [column [.primaryKey]], []⟩]⟩ :=
    Schema.read_of_toOption (by decide +kernel)
  have hafter : Schema.read "CREATE TABLE t (a INT PRIMARY KEY UNIQUE KEY);".toList .mysql =
      .ok ⟨[.createTable ⟨['t'], [f], []⟩]⟩ :=
    Schema.read_of_toOption (by decide +kernel)
  exact ⟨_, _, ⟨['t'], [f], []⟩, f, hbefore, hafter, by decide, by decide, by decide, by decide,
    by decide, by decide⟩

end Schema

end SchemaDelta
