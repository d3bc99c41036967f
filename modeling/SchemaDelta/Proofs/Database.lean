/-
**Databases and what a delta does to them.**

A database maps names to tables, and a table of a database maps names to columns and has a set of
indices that are in effect.  A delta acts on it in the order of the script: tables are created, then
altered clause by clause, then dropped.

Main definitions:

* `SchemaDelta.Relation`, `SchemaDelta.Database` — the tables of a database, and databases;
* `SchemaDelta.Relation.ofTable` — a table right after it was created;
* `SchemaDelta.Relation.applyClause`, `SchemaDelta.Database.apply` — what a clause and what a delta
  does;
* `SchemaDelta.Relation.Represents`, `SchemaDelta.Database.Represents` — a database has the tables
  that a schema defines.

Main results:

* `SchemaDelta.Relation.exists_column_of_represents`,
  `SchemaDelta.Database.exists_relation_of_represents` — what is defined is there, and what is not
  defined is not;
* `SchemaDelta.Relation.columns_ofTable` — a created table has the last column of each name;
* `SchemaDelta.Relation.columns_applyAll_addField` and its companions — what a run of clauses of
  one kind does;
* `SchemaDelta.Database.apply_apply` — **what a delta does to the table of a name**.
-/

import Mathlib.Data.Finset.Basic
import Mathlib.Data.Option.Basic
import SchemaDelta.Proofs.Alteration

set_option relaxedAutoImplicit false
set_option autoImplicit false

namespace SchemaDelta

/-! ### Tables of a database -/

/-- A table of a database. -/
structure Relation where
  /-- The columns by their names. -/
  columns : Text → Option Field
  /-- The indices that are in effect. -/
  indices : Finset Index

namespace Relation

/-- A table right after it was created: its columns are written one after the other, and all of its
indices, declared and implied, are in effect. -/
def ofTable (t : Table) : Relation where
  columns := t.fields.foldl (fun cs f => Function.update cs f.name (some f)) fun _ => none
  indices := t.indices.toFinset

/-- What one clause does: it adds, removes or replaces a column, or removes or adds an index. -/
def applyClause (r : Relation) : Clause → Relation
  | .addField f => { r with columns := Function.update r.columns f.name (some f) }
  | .dropField name => { r with columns := Function.update r.columns name none }
  | .alterField f =>
    { r with columns := Function.update r.columns f.name ((r.columns f.name).map fun _ => f) }
  | .dropIndex i => { r with indices := r.indices.erase i }
  | .addIndex i => { r with indices := insert i r.indices }

/-- What clauses do, one after the other. -/
def applyAll (r : Relation) (clauses : List Clause) : Relation :=
  clauses.foldl applyClause r

/-- A table of a database is as a table of a schema defines it: it has the same columns up to
equality of fields, and the same set of indices. -/
structure Represents (r : Relation) (t : Table) : Prop where
  /-- Under every name there is an equal column on both sides, or none. -/
  columns : ∀ name, Option.Rel (fun f g => f.identical g = true) (r.columns name) (t.field? name)
  /-- The same indices are in effect. -/
  indices : ∀ i, i ∈ r.indices ↔ i ∈ t.indices

end Relation

/-! ### Databases -/

/-- A database maps names to tables. -/
abbrev Database := Text → Option Relation

namespace Database

/-- The database without tables. -/
def empty : Database := fun _ => none

/-- The creation of a table. -/
def create (db : Database) (t : Table) : Database :=
  Function.update db t.name (some (.ofTable t))

/-- The alteration of a table. -/
def alter (db : Database) (a : Text × List Clause) : Database :=
  Function.update db a.1 ((db a.1).map fun r => r.applyAll a.2)

/-- The removal of a table. -/
def drop (db : Database) (name : Text) : Database :=
  Function.update db name none

/-- What a delta does: tables are created, then altered, then dropped. -/
def apply (db : Database) (d : Delta) : Database :=
  d.drops.foldl drop (d.alters.foldl alter (d.creates.foldl create db))

/-- A database has the tables that a schema defines, the last one of each name. -/
def Represents (db : Database) (s : Schema) : Prop :=
  ∀ name, Option.Rel Relation.Represents (db name) (s.table? name)

end Database

/-! ### What a represented table is known to have -/

section

variable {α β : Type} {R : α → β → Prop} {x : Option α}

theorem eq_none_of_rel (h : Option.Rel R x none) : x = none := by
  cases h
  rfl

theorem exists_of_rel_some {b : β} (h : Option.Rel R x (some b)) : ∃ a, x = some a ∧ R a b := by
  cases h with
  | some hab => exact ⟨_, rfl, hab⟩

theorem rel_self {S : α → α → Prop} (hS : ∀ a, S a a) (x : Option α) : Option.Rel S x x := by
  cases x with
  | none => exact Option.Rel.none
  | some a => exact Option.Rel.some (hS a)

end

namespace Relation

variable {r : Relation} {t : Table} {name : Text}

/-- There is no column under a name that the defined table does not use. -/
theorem columns_eq_none_of_represents (h : r.Represents t) (ht : t.field? name = none) :
    r.columns name = none :=
  eq_none_of_rel (ht ▸ h.columns name)

/-- Under a name that the defined table uses, there is an equal column. -/
theorem exists_column_of_represents (h : r.Represents t) {f : Field} (ht : t.field? name = some f) :
    ∃ g, r.columns name = some g ∧ g.identical f = true := by
  have hcolumn := h.columns name
  rw [ht] at hcolumn
  obtain ⟨g, hr, hg⟩ := exists_of_rel_some hcolumn
  exact ⟨g, hr, hg⟩

end Relation

namespace Database

variable {db : Database} {s : Schema} {name : Text}

/-- There is no table under a name that the schema does not use. -/
theorem eq_none_of_represents (h : db.Represents s) (hs : s.table? name = none) : db name = none :=
  eq_none_of_rel (hs ▸ h name)

/-- Under a name that the schema uses, there is a table as it is defined. -/
theorem exists_relation_of_represents (h : db.Represents s) {t : Table}
    (hs : s.table? name = some t) : ∃ r, db name = some r ∧ r.Represents t :=
  exists_of_rel_some (hs ▸ h name)

end Database

/-! ### Clauses of one kind -/

namespace Relation

theorem columns_ofTable (t : Table) (name : Text) : (ofTable t).columns name = t.field? name := by
  have h := @foldl_update_apply Field (Option Field) Field.name some t.fields (fun _ => none) name
  rw [show (ofTable t).columns name = _ from h, Table.field?]
  cases lastNamed? Field.name name t.fields <;> rfl

/-- **A table that was just created is as it was defined.** -/
theorem represents_ofTable (t : Table) : (ofTable t).Represents t where
  columns name := by
    rw [columns_ofTable]
    exact rel_self Field.identical_refl _
  indices i := by simp [ofTable]

@[simp] theorem applyAll_nil (r : Relation) : r.applyAll [] = r := rfl

@[simp] theorem applyAll_cons (r : Relation) (c : Clause) (cs : List Clause) :
    r.applyAll (c :: cs) = (r.applyClause c).applyAll cs := rfl

@[simp] theorem applyAll_append (r : Relation) (cs ds : List Clause) :
    r.applyAll (cs ++ ds) = (r.applyAll cs).applyAll ds :=
  List.foldl_append

theorem columns_applyAll_addField (r : Relation) (fs : List Field) (name : Text) :
    (r.applyAll (fs.map .addField)).columns name =
      (lastNamed? Field.name name fs).or (r.columns name) := by
  induction fs generalizing r with
  | nil => rfl
  | cons f fs ih =>
      rw [List.map_cons, applyAll_cons, ih, lastNamed?_cons]
      by_cases hf : f.name = name
      · subst hf
        cases lastNamed? Field.name f.name fs <;> simp [applyClause]
      · simp [applyClause, hf, Function.update_of_ne (Ne.symm hf)]

theorem columns_applyAll_dropField (r : Relation) (ns : List Text) (name : Text) :
    (r.applyAll (ns.map .dropField)).columns name =
      if name ∈ ns then none else r.columns name := by
  induction ns generalizing r with
  | nil => rfl
  | cons n ns ih =>
      rw [List.map_cons, applyAll_cons, ih]
      by_cases hn : name = n
      · subst hn
        simp [applyClause]
      · simp [applyClause, hn]

theorem columns_applyAll_alterField (r : Relation) (fs : List Field) (name : Text) :
    (r.applyAll (fs.map .alterField)).columns name =
      (r.columns name).map ((lastNamed? Field.name name fs).getD) := by
  induction fs generalizing r with
  | nil => cases h : r.columns name <;> simp [h]
  | cons f fs ih =>
      rw [List.map_cons, applyAll_cons, ih, lastNamed?_cons]
      by_cases hf : f.name = name
      · subst hf
        cases lastNamed? Field.name f.name fs with
        | none => cases h : r.columns f.name <;> simp [applyClause, h]
        | some g => cases h : r.columns f.name <;> simp [applyClause, h]
      · simp [applyClause, hf, Function.update_of_ne (Ne.symm hf)]

theorem mem_indices_applyAll_dropIndex (r : Relation) (is : List Index) (i : Index) :
    i ∈ (r.applyAll (is.map .dropIndex)).indices ↔ i ∈ r.indices ∧ i ∉ is := by
  induction is generalizing r with
  | nil => simp
  | cons j is ih =>
      rw [List.map_cons, applyAll_cons, ih]
      simp only [applyClause, Finset.mem_erase, List.mem_cons, not_or]
      tauto

theorem mem_indices_applyAll_addIndex (r : Relation) (is : List Index) (i : Index) :
    i ∈ (r.applyAll (is.map .addIndex)).indices ↔ i ∈ r.indices ∨ i ∈ is := by
  induction is generalizing r with
  | nil => simp
  | cons j is ih =>
      rw [List.map_cons, applyAll_cons, ih]
      simp only [applyClause, Finset.mem_insert, List.mem_cons]
      tauto

/-- What every one of some clauses leaves alone, all of them leave alone. -/
theorem applyAll_leaves {α : Type} (part : Relation → α) {cs : List Clause}
    (h : ∀ c ∈ cs, ∀ r : Relation, part (r.applyClause c) = part r) (r : Relation) :
    part (r.applyAll cs) = part r := by
  induction cs generalizing r with
  | nil => rfl
  | cons c cs ih =>
      rw [applyAll_cons, ih (fun d hd => h d (List.mem_cons_of_mem c hd))]
      exact h c List.mem_cons_self r

/-- Clauses about indices leave the columns alone. -/
theorem columns_applyAll_of_indices (r : Relation) {cs : List Clause}
    (h : ∀ c ∈ cs, ∃ i, c = .dropIndex i ∨ c = .addIndex i) :
    (r.applyAll cs).columns = r.columns := by
  refine applyAll_leaves columns (fun c hc r => ?_) r
  obtain ⟨i, rfl | rfl⟩ := h c hc <;> rfl

/-- Clauses about columns leave the indices alone. -/
theorem indices_applyAll_of_fields (r : Relation) {cs : List Clause}
    (h : ∀ c ∈ cs, (∃ f, c = .addField f ∨ c = .alterField f) ∨ ∃ n, c = .dropField n) :
    (r.applyAll cs).indices = r.indices := by
  refine applyAll_leaves indices (fun c hc r => ?_) r
  obtain ⟨f, rfl | rfl⟩ | ⟨n, rfl⟩ := h c hc <;> rfl

end Relation

/-! ### The table of a name -/

namespace Database

theorem foldl_create_apply (db : Database) (ts : List Table) (name : Text) :
    ts.foldl create db name =
      ((lastNamed? Table.name name ts).map fun t => some (.ofTable t)).getD (db name) :=
  foldl_update_apply (fun t => some (Relation.ofTable t)) ts db name

theorem foldl_drop_apply (db : Database) (ns : List Text) (name : Text) :
    ns.foldl drop db name = if name ∈ ns then none else db name := by
  induction ns generalizing db with
  | nil => rfl
  | cons n ns ih =>
      rw [List.foldl_cons, ih]
      by_cases hn : name = n
      · subst hn
        simp [drop]
      · simp [drop, hn]

/-- Alterations of different tables do not meet. -/
theorem foldl_alter_apply (db : Database) {as : List (Text × List Clause)}
    (h : (as.map Prod.fst).Nodup) (name : Text) :
    as.foldl alter db name = (db name).map fun r => r.applyAll ((as.lookup name).getD []) := by
  induction as generalizing db with
  | nil => simp
  | cons a as ih =>
      rw [List.map_cons, List.nodup_cons] at h
      obtain ⟨hnot, hnd⟩ := h
      rw [List.foldl_cons, ih _ hnd]
      obtain ⟨n, cs⟩ := a
      by_cases hn : name = n
      · subst hn
        have hnone : as.lookup name = none := by
          refine List.lookup_eq_none_iff.2 fun b hb => ?_
          have hne : name ≠ b.1 := fun heq => hnot (List.mem_map.2 ⟨b, hb, heq.symm⟩)
          simpa using hne
        cases h : db name <;> simp [alter, hnone, h]
      · have hne : (name == n) = false := by simpa using hn
        rw [List.lookup_cons, hne]
        simp [alter, Function.update_of_ne hn]

/-- **What a delta does to the table of a name**, provided that no table is altered twice. -/
theorem apply_apply (db : Database) {d : Delta} (h : (d.alters.map Prod.fst).Nodup) (name : Text) :
    db.apply d name =
      if name ∈ d.drops then none
      else (((lastNamed? Table.name name d.creates).map fun t => some (.ofTable t)).getD
        (db name)).map fun r => r.applyAll (d.clausesFor name) := by
  rw [apply, foldl_drop_apply, foldl_alter_apply _ h, foldl_create_apply, Delta.clausesFor]

end Database

end SchemaDelta
