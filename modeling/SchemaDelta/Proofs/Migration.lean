/-
**Migrations lead where they say.**

A delta between two schemas, applied to a database that has the tables of the earlier one, gives a
database that has the tables of the later one.  The earlier schema may define things more than once;
in the later one the columns of a table need different names, since a name that a table gives to two
columns is altered twice, to definitions of which only the last one counts.

Nothing but the names and the sets of indices is looked at, so this composes: whatever schemas a
database is led through, it ends at the last of them.

Main definitions:

* `SchemaDelta.Table.DistinctColumns`, `SchemaDelta.Schema.DistinctColumns` — no name is given to
  two columns of a table;
* `SchemaDelta.Database.migrate` — a run of migrations, from schema to schema.

Main results:

* `SchemaDelta.Relation.represents_applyAll` — the clauses between two tables lead from the one to
  the other;
* `SchemaDelta.Database.represents_apply` — so does the delta between two schemas;
* `SchemaDelta.Database.represents_apply_and_migrate` — **and so does every run of migrations**.
-/

import SchemaDelta.Proofs.Database

set_option relaxedAutoImplicit false
set_option autoImplicit false

namespace SchemaDelta

/-- No name is given to two columns of the table. -/
def Table.DistinctColumns (t : Table) : Prop :=
  (t.fields.map Field.name).Nodup

instance (t : Table) : Decidable t.DistinctColumns :=
  inferInstanceAs (Decidable (List.Nodup _))

/-- No table of the schema gives a name to two columns. -/
def Schema.DistinctColumns (s : Schema) : Prop :=
  ∀ t ∈ s.tables, t.DistinctColumns

instance (s : Schema) : Decidable s.DistinctColumns :=
  inferInstanceAs (Decidable (∀ t ∈ s.tables, t.DistinctColumns))

theorem Schema.mem_tables_of_table? {s : Schema} {name : Text} {t : Table}
    (h : s.table? name = some t) : t ∈ s.tables :=
  (mem_and_name_of_lastNamed? h).1

/-! ### From table to table -/

namespace Table

variable {b a : Table}

theorem name_of_field? {t : Table} {name : Text} {f : Field} (h : t.field? name = some f) :
    f.name = name :=
  (mem_and_name_of_lastNamed? h).2

theorem lastNamed?_addedFields (b a : Table) (name : Text) :
    lastNamed? Field.name name (addedFields b a) =
      if (b.field? name).isNone = true then a.field? name else none :=
  lastNamed?_filter (fun n => (b.field? n).isNone) name a.fields

theorem mem_droppedFields {name : Text} :
    name ∈ droppedFields b a ↔ (b.field? name).isSome = true ∧ a.field? name = none := by
  rw [field?_isSome_iff]
  simp only [droppedFields, List.mem_map, List.mem_filter, Option.isNone_iff_eq_none]
  constructor
  · rintro ⟨f, ⟨hf, hnone⟩, rfl⟩
    exact ⟨⟨f, hf, rfl⟩, hnone⟩
  · rintro ⟨⟨f, hf, rfl⟩, hnone⟩
    exact ⟨f, ⟨hf, hnone⟩, rfl⟩

/-- Of a column that both tables have, the later definition is written unless it is left alone. -/
theorem lastNamed?_alteredFields (ha : a.DistinctColumns) (o : Options) {name : Text}
    {previous f : Field} (hb : b.field? name = some previous) (hf : a.field? name = some f) :
    lastNamed? Field.name name (alteredFields b a o) =
      if (o.alterUnchanged || !previous.sameDefinition f) = true then some f else none := by
  have hlast : lastNamed? Field.name name a.fields = some f := hf
  rw [alteredFields, lastNamed?_filter_of_nodup ha, hlast, Option.filter_some, name_of_field? hf, hb]

end Table

namespace Relation

variable {r : Relation} {b a : Table}

theorem columns_applyAll_clausesTo (r : Relation) (b a : Table) (o : Options) (name : Text) :
    (r.applyAll (b.clausesTo a o)).columns name =
      (if name ∈ b.droppedFields a then none
        else (lastNamed? Field.name name (b.addedFields a)).or (r.columns name)).map
        (lastNamed? Field.name name (b.alteredFields a o)).getD := by
  have hindices : ∀ c ∈ (b.droppedIndices a).map Clause.dropIndex ++
      (b.addedIndices a).map Clause.addIndex, ∃ i, c = .dropIndex i ∨ c = .addIndex i := by
    intro c hc
    rcases List.mem_append.1 hc with hc | hc
    · obtain ⟨i, -, rfl⟩ := List.mem_map.1 hc
      exact ⟨i, .inl rfl⟩
    · obtain ⟨i, -, rfl⟩ := List.mem_map.1 hc
      exact ⟨i, .inr rfl⟩
  rw [Table.clausesTo, List.append_assoc, applyAll_append, columns_applyAll_of_indices _ hindices,
    applyAll_append, columns_applyAll_alterField, applyAll_append, columns_applyAll_dropField,
    columns_applyAll_addField]

theorem mem_indices_applyAll_clausesTo (r : Relation) (b a : Table) (o : Options) (i : Index) :
    i ∈ (r.applyAll (b.clausesTo a o)).indices ↔
      (i ∈ r.indices ∧ i ∉ b.droppedIndices a) ∨ i ∈ b.addedIndices a := by
  have hfields : ∀ c ∈ (b.addedFields a).map Clause.addField ++
      (b.droppedFields a).map Clause.dropField ++ (b.alteredFields a o).map Clause.alterField,
      (∃ f, c = .addField f ∨ c = .alterField f) ∨ ∃ n, c = .dropField n := by
    intro c hc
    rcases List.mem_append.1 hc with hc | hc
    · rcases List.mem_append.1 hc with hc | hc
      · obtain ⟨f, -, rfl⟩ := List.mem_map.1 hc
        exact .inl ⟨f, .inl rfl⟩
      · obtain ⟨n, -, rfl⟩ := List.mem_map.1 hc
        exact .inr ⟨n, rfl⟩
    · obtain ⟨f, -, rfl⟩ := List.mem_map.1 hc
      exact .inl ⟨f, .inr rfl⟩
  rw [Table.clausesTo, applyAll_append, mem_indices_applyAll_addIndex, applyAll_append,
    mem_indices_applyAll_dropIndex, indices_applyAll_of_fields _ hfields]

/-- A column that only the later table has is added, and nothing else happens to it. -/
theorem columns_applyAll_of_new {name : Text} (hb : b.field? name = none)
    (hr : r.columns name = none) (o : Options) :
    (r.applyAll (b.clausesTo a o)).columns name = a.field? name := by
  have hkept : name ∉ b.droppedFields a := by
    simp [Table.mem_droppedFields, hb]
  have halter : lastNamed? Field.name name (b.alteredFields a o) = none := by
    refine lastNamed?_eq_none_iff.2 fun g hg hn => ?_
    obtain ⟨-, hg⟩ := List.mem_filter.1 hg
    rw [hn, hb] at hg
    cases hg
  rw [columns_applyAll_clausesTo, Table.lastNamed?_addedFields, if_neg hkept, hr, halter]
  cases hf : a.field? name with
  | none => simp
  | some f => simp [hb]

/-- A column that only the earlier table has is dropped. -/
theorem columns_applyAll_of_gone {name : Text} {previous : Field}
    (hb : b.field? name = some previous) (hf : a.field? name = none) (o : Options) :
    (r.applyAll (b.clausesTo a o)).columns name = none := by
  have hdropped : name ∈ b.droppedFields a := Table.mem_droppedFields.2 ⟨by simp [hb], hf⟩
  rw [columns_applyAll_clausesTo, if_pos hdropped, Option.map_none]

/-- A column that both tables have is written anew, or it stays as it is. -/
theorem columns_applyAll_of_kept (ha : a.DistinctColumns) {name : Text} {previous f g : Field}
    (hb : b.field? name = some previous) (hf : a.field? name = some f)
    (hr : r.columns name = some g) (o : Options) :
    (r.applyAll (b.clausesTo a o)).columns name =
      some (if (o.alterUnchanged || !previous.sameDefinition f) = true then f else g) := by
  have hkept : name ∉ b.droppedFields a := by
    simp [Table.mem_droppedFields, hf]
  rw [columns_applyAll_clausesTo, Table.lastNamed?_addedFields, if_neg hkept,
    Table.lastNamed?_alteredFields ha o hb hf, hr, hb]
  simp only [Option.isNone_some, Bool.false_eq_true, ↓reduceIte, Option.none_or, Option.map_some]
  by_cases hp : (o.alterUnchanged || !previous.sameDefinition f) = true
  · rw [if_pos hp, if_pos hp]
    rfl
  · rw [if_neg hp, if_neg hp]
    rfl

/-- **The clauses between two tables lead from the one to the other.** -/
theorem represents_applyAll (ha : a.DistinctColumns) (o : Options) (h : r.Represents b) :
    (r.applyAll (b.clausesTo a o)).Represents a where
  columns name := by
    cases hb : b.field? name with
    | none =>
        rw [columns_applyAll_of_new hb (columns_eq_none_of_represents h hb)]
        exact rel_self Field.identical_refl _
    | some previous =>
        obtain ⟨g, hr, hsame⟩ := exists_column_of_represents h hb
        cases hf : a.field? name with
        | none =>
            rw [columns_applyAll_of_gone hb hf]
            exact Option.Rel.none
        | some f =>
            rw [columns_applyAll_of_kept ha hb hf hr]
            refine Option.Rel.some ?_
            by_cases hp : (o.alterUnchanged || !previous.sameDefinition f) = true
            · rw [if_pos hp]
              exact Field.identical_refl f
            · -- the column did not change, so the one that is there is the later one
              rw [if_neg hp]
              obtain ⟨hn, hd⟩ := Field.identical_iff.1 hsame
              have hpf : previous.sameDefinition f = true := by
                simp only [Bool.or_eq_true, Bool.not_eq_true', not_or] at hp
                simpa using hp.2
              refine Field.identical_iff.2 ⟨?_, Field.sameDefinition_trans hd hpf⟩
              exact (hn.trans (Table.name_of_field? hb)).trans (Table.name_of_field? hf).symm
  indices i := by
    rw [mem_indices_applyAll_clausesTo, h.indices]
    simp only [Table.droppedIndices, Table.addedIndices, List.mem_filter, Bool.not_eq_true',
      List.contains_eq_mem, decide_eq_false_iff_not]
    tauto

end Relation

/-! ### From schema to schema -/

namespace Database

/-- A run of migrations: the database is led from the current schema to each of the others in
order, and every delta has its own options. -/
def migrate (db : Database) (current : Schema) : List (Schema × Options) → Database
  | [] => db
  | (next, o) :: run => (db.apply (.between current next o)).migrate next run

/-- The schema at which a run of migrations from the given one ends. -/
def endOf (current : Schema) : List (Schema × Options) → Schema
  | [] => current
  | (next, _) :: run => endOf next run

theorem represents_empty : empty.Represents .empty := fun _ => Option.Rel.none

/-- **The delta between two schemas leads from the one to the other.** -/
theorem represents_apply {db : Database} {before after : Schema} (ha : after.DistinctColumns)
    (o : Options) (h : db.Represents before) :
    (db.apply (.between before after o)).Represents after := by
  intro name
  have hcreated : lastNamed? Table.name name (Delta.between before after o).creates =
      if (!before.hasTable name) = true then after.table? name else none :=
    lastNamed?_filter (fun n => !before.hasTable n) name after.tables
  have hdropped : name ∈ (Delta.between before after o).drops ↔
      before.hasTable name = true ∧ after.hasTable name = false := by
    simp [Delta.between, Schema.hasTable_iff]
  rw [apply_apply db (Delta.nodup_alters_between before after o), hcreated,
    Delta.clausesFor_between]
  cases hb : before.table? name with
  | none =>
      have hkept : name ∉ (Delta.between before after o).drops := by
        simp [hdropped, Schema.hasTable, hb]
      rw [if_neg hkept, eq_none_of_represents h hb]
      cases hat : after.table? name with
      | none =>
          have hnew : before.hasTable name = false := by
            simp [Schema.hasTable, hb]
          simp only [hnew, Bool.not_false, ↓reduceIte, Option.map_none]
          exact Option.Rel.none
      | some a =>
          -- the table is new, and no clause follows its creation
          simpa [Schema.hasTable, Schema.clausesAt?, hb] using
            Option.Rel.some (Relation.represents_ofTable a)
  | some b =>
      cases hat : after.table? name with
      | none =>
          have hgone : name ∈ (Delta.between before after o).drops := by
            simp [hdropped, Schema.hasTable, hb, hat]
          rw [if_pos hgone]
          exact Option.Rel.none
      | some a =>
          have hkept : name ∉ (Delta.between before after o).drops := by
            simp [hdropped, Schema.hasTable, hat]
          obtain ⟨r, hdb, hr⟩ := exists_relation_of_represents h hb
          rw [if_neg hkept, Schema.clausesAt?_of_both hb hat, hdb]
          have hdistinct : a.DistinctColumns := ha a (Schema.mem_tables_of_table? hat)
          simpa [Schema.hasTable, hb] using
            Option.Rel.some (Relation.represents_applyAll hdistinct o hr)

theorem represents_migrate {db : Database} {current : Schema} (h : db.Represents current)
    {run : List (Schema × Options)} (hrun : ∀ step ∈ run, step.1.DistinctColumns) :
    (db.migrate current run).Represents (endOf current run) := by
  induction run generalizing db current with
  | nil => exact h
  | cons step run ih =>
      obtain ⟨next, o⟩ := step
      have hnext : next.DistinctColumns := hrun (next, o) List.mem_cons_self
      exact ih (represents_apply hnext o h) fun s hs => hrun s (List.mem_cons_of_mem _ hs)

/-- **Migrations lead where they say.**  From any database with the tables of the earlier schema the
delta leads to the later one, and from the empty database a run of migrations leads to the last
schema of the run. -/
theorem represents_apply_and_migrate {db : Database} {before after : Schema}
    (ha : after.DistinctColumns) (o : Options) (h : db.Represents before)
    {run : List (Schema × Options)} (hrun : ∀ step ∈ run, step.1.DistinctColumns) :
    (db.apply (.between before after o)).Represents after ∧
      (empty.migrate .empty run).Represents (endOf .empty run) :=
  ⟨represents_apply ha o h, represents_migrate represents_empty hrun⟩

/-- A table with one column, and the same table with a second column that is the primary key. -/
theorem represents_apply_and_migrate_keyed :
    let plain : Schema := ⟨[.createTable ⟨['t'], [⟨['a'], "int".toList, [], []⟩], []⟩]⟩
    let keyed : Schema := ⟨[.createTable ⟨['t'],
      [⟨['a'], "int".toList, [], []⟩, ⟨['b'], "int".toList, [], [.primaryKey]⟩], []⟩]⟩
    let db := empty.apply (.between .empty plain {})
    (db.apply (.between plain keyed .skipUnchanged)).Represents keyed ∧
      (empty.migrate .empty [(plain, {}), (keyed, .skipUnchanged), (plain, {})]).Represents
        (endOf .empty [(plain, {}), (keyed, .skipUnchanged), (plain, {})]) :=
  represents_apply_and_migrate (by decide) .skipUnchanged
    (represents_apply (by decide) {} represents_empty) (by decide)

end Database

end SchemaDelta
