/-
**What a clause is about.**

A clause is about one column of a table or about one index, and it does one of five things to it.
Two clauses about different things do not meet, whatever they do.  Between two tables whose column
names and indices do not repeat, no two clauses are about the same thing: a column is added, dropped
or altered, and an index is dropped or added.

Main definitions:

* `SchemaDelta.Subject`, `SchemaDelta.Clause.subject` — the column or the index that a clause is
  about;
* `SchemaDelta.Clause.Kind`, `SchemaDelta.Clause.kind` — what a clause does to it;
* `SchemaDelta.Delta.subjects` — what the clauses of one kind for a table are about;
* `SchemaDelta.Relation.RepresentsAt` — a table of a database is as it should be at one place.

Main results:

* `SchemaDelta.Table.subjects_clausesTo` — the clauses of each kind between two tables;
* `SchemaDelta.Relation.representsAt_applyAll` — **clauses leave alone what they are not about**;
* `SchemaDelta.Table.nodup_subject_clausesTo` — **no two clauses are about the same thing**.
-/

import Mathlib.Data.List.Nodup
import SchemaDelta.Proofs.Migration

set_option relaxedAutoImplicit false
set_option autoImplicit false

namespace SchemaDelta

/-! ### Subjects and kinds -/

/-- What a clause is about. -/
inductive Subject where
  /-- The column of a name. -/
  | column (name : Text)
  /-- An index. -/
  | index (index : Index)
  deriving Repr, DecidableEq

namespace Clause

/-- The column or the index that a clause is about. -/
def subject : Clause → Subject
  | .addField f | .alterField f => .column f.name
  | .dropField name => .column name
  | .dropIndex i | .addIndex i => .index i

/-- What is done to the subject of a clause. -/
inductive Kind where
  | addField
  | dropField
  | alterField
  | dropIndex
  | addIndex
  deriving Repr, DecidableEq

/-- What a clause does. -/
def kind : Clause → Kind
  | .addField _ => .addField
  | .dropField _ => .dropField
  | .alterField _ => .alterField
  | .dropIndex _ => .dropIndex
  | .addIndex _ => .addIndex

/-- What undoes the work of a clause. -/
def Kind.reverse : Kind → Kind
  | .addField => .dropField
  | .dropField => .addField
  | .alterField => .alterField
  | .dropIndex => .addIndex
  | .addIndex => .dropIndex

end Clause

open Clause (Kind)

/-- What the clauses of one kind are about, in their order. -/
def subjectsOf (cs : List Clause) (k : Kind) : List Subject :=
  (cs.filter fun c => c.kind = k).map Clause.subject

/-- What the clauses of one kind for the table of a name are about, in their order. -/
def Delta.subjects (d : Delta) (name : Text) (k : Kind) : List Subject :=
  subjectsOf (d.clausesFor name) k

theorem subjectsOf_append (cs ds : List Clause) (k : Kind) :
    subjectsOf (cs ++ ds) k = subjectsOf cs k ++ subjectsOf ds k := by
  rw [subjectsOf, List.filter_append, List.map_append]
  rfl

/-- Clauses of one kind have no subjects of another one. -/
theorem subjectsOf_map {α : Type} {clause : α → Clause} {k : Kind}
    (h : ∀ a, (clause a).kind = k) (as : List α) (k' : Kind) :
    subjectsOf (as.map clause) k' = if k = k' then as.map fun a => (clause a).subject else [] := by
  rw [subjectsOf, List.filter_map]
  by_cases hk : k = k'
  · rw [if_pos hk, List.filter_eq_self.2 fun a _ => by simp [h, hk], List.map_map]
    rfl
  · rw [if_neg hk, List.filter_eq_nil_iff.2 fun a _ => by simp [h, hk]]
    rfl

/-- There are clauses exactly when there are some of one of the kinds. -/
theorem eq_nil_iff_subjectsOf (cs : List Clause) : cs = [] ↔ ∀ k, subjectsOf cs k = [] := by
  constructor
  · rintro rfl k
    rfl
  · intro h
    cases cs with
    | nil => rfl
    | cons c cs =>
        have hc : c.subject ∈ subjectsOf (c :: cs) c.kind :=
          List.mem_map_of_mem (List.mem_filter.2 ⟨List.mem_cons_self, by simp⟩)
        rw [h] at hc
        cases hc

namespace Table

/-- **The clauses of each kind between two tables.** -/
theorem subjects_clausesTo (b a : Table) (o : Options) (k : Kind) :
    subjectsOf (b.clausesTo a o) k =
      match k with
      | .addField => (addedFields b a).map fun f => .column f.name
      | .dropField => (droppedFields b a).map .column
      | .alterField => (alteredFields b a o).map fun f => .column f.name
      | .dropIndex => (droppedIndices b a).map .index
      | .addIndex => (addedIndices b a).map .index := by
  rw [clausesTo, subjectsOf_append, subjectsOf_append, subjectsOf_append, subjectsOf_append,
    subjectsOf_map (k := .addField) fun _ => rfl, subjectsOf_map (k := .dropField) fun _ => rfl,
    subjectsOf_map (k := .alterField) fun _ => rfl, subjectsOf_map (k := .dropIndex) fun _ => rfl,
    subjectsOf_map (k := .addIndex) fun _ => rfl]
  cases k <;> simp [Clause.subject]

/-! ### No two clauses about the same thing -/

/-- The columns and the indices that the clauses between two tables are about. -/
theorem map_subject_clausesTo (b a : Table) (o : Options) :
    (b.clausesTo a o).map Clause.subject =
      ((addedFields b a).map Field.name ++ droppedFields b a ++
        (alteredFields b a o).map Field.name).map Subject.column ++
        (droppedIndices b a ++ addedIndices b a).map Subject.index := by
  simp [clausesTo, Clause.subject, Function.comp_def]

/-- No index occurs twice among the declared and the implied ones. -/
def DistinctIndices (t : Table) : Prop :=
  t.indices.Nodup

instance (t : Table) : Decidable t.DistinctIndices :=
  inferInstanceAs (Decidable (List.Nodup _))

variable {b a : Table}

/-- A column is added, dropped or altered. -/
theorem nodup_names_clausesTo (hb : b.DistinctColumns) (ha : a.DistinctColumns) (o : Options) :
    ((addedFields b a).map Field.name ++ droppedFields b a ++
      (alteredFields b a o).map Field.name).Nodup := by
  have hadded : ∀ f ∈ addedFields b a, b.field? f.name = none ∧ f ∈ a.fields := by
    intro f hf
    obtain ⟨hmem, hnone⟩ := List.mem_filter.1 hf
    exact ⟨by simpa using hnone, hmem⟩
  have haltered : ∀ f ∈ alteredFields b a o, (b.field? f.name).isSome = true ∧ f ∈ a.fields := by
    intro f hf
    obtain ⟨hmem, hchanged⟩ := List.mem_filter.1 hf
    cases hprevious : b.field? f.name with
    | none => rw [hprevious] at hchanged; cases hchanged
    | some previous => exact ⟨rfl, hmem⟩
  have hfound : ∀ f ∈ a.fields, a.field? f.name ≠ none := by
    intro f hf
    rw [Table.field?, lastNamed?_of_mem_of_nodup ha hf]
    exact Option.some_ne_none f
  refine List.nodup_append'.2 ⟨List.nodup_append'.2 ⟨?_, ?_, ?_⟩, ?_, ?_⟩
  · exact List.Nodup.sublist (List.filter_sublist.map Field.name) ha
  · exact List.Nodup.sublist (List.filter_sublist.map Field.name) hb
  · intro name hname hdropped
    obtain ⟨f, hf, rfl⟩ := List.mem_map.1 hname
    exact hfound f (hadded f hf).2 (mem_droppedFields.1 hdropped).2
  · exact List.Nodup.sublist (List.filter_sublist.map Field.name) ha
  · intro name hname haltername
    obtain ⟨f, hf, rfl⟩ := List.mem_map.1 haltername
    obtain ⟨hsome, hmem⟩ := haltered f hf
    rcases List.mem_append.1 hname with hname | hdropped
    · obtain ⟨g, hg, hgf⟩ := List.mem_map.1 hname
      rw [← hgf, (hadded g hg).1] at hsome
      cases hsome
    · exact hfound f hmem (mem_droppedFields.1 hdropped).2

/-- An index is dropped or added. -/
theorem nodup_indices_clausesTo (hb : b.DistinctIndices) (ha : a.DistinctIndices) :
    (droppedIndices b a ++ addedIndices b a).Nodup := by
  refine List.nodup_append'.2 ⟨hb.filter _, ha.filter _, fun i hdropped hadded => ?_⟩
  have hgone := (List.mem_filter.1 hdropped).2
  have hmem := (List.mem_filter.1 hadded).1
  simp [hmem] at hgone

/-- **No two clauses between two tables are about the same thing.** -/
theorem nodup_subject_clausesTo (hb : b.DistinctColumns) (ha : a.DistinctColumns)
    (hbi : b.DistinctIndices) (hai : a.DistinctIndices) (o : Options) :
    ((b.clausesTo a o).map Clause.subject).Nodup := by
  rw [map_subject_clausesTo]
  refine List.nodup_append'.2 ⟨?_, ?_, ?_⟩
  · exact (nodup_names_clausesTo hb ha o).map fun m n h => by cases h; rfl
  · exact (nodup_indices_clausesTo hbi hai).map fun i j h => by cases h; rfl
  · intro x hcolumn hindex
    obtain ⟨name, -, rfl⟩ := List.mem_map.1 hcolumn
    obtain ⟨i, -, hi⟩ := List.mem_map.1 hindex
    cases hi

end Table

/-! ### What a clause leaves alone -/

namespace Relation

variable {r : Relation} {t : Table} {x : Subject}

/-- At one place a table of a database is as a table of a schema defines it. -/
def RepresentsAt (r : Relation) (t : Table) : Subject → Prop
  | .column name => Option.Rel (fun f g => f.identical g = true) (r.columns name) (t.field? name)
  | .index i => i ∈ r.indices ↔ i ∈ t.indices

theorem represents_iff : r.Represents t ↔ ∀ x, r.RepresentsAt t x := by
  constructor
  · intro h x
    cases x with
    | column name => exact h.columns name
    | index i => exact h.indices i
  · intro h
    exact ⟨fun name => h (.column name), fun i => h (.index i)⟩

theorem representsAt_applyClause {c : Clause} (h : c.subject ≠ x) :
    (r.applyClause c).RepresentsAt t x ↔ r.RepresentsAt t x := by
  cases x with
  | column name =>
      -- a clause about another column writes elsewhere, one about an index writes no column
      have hcolumns : (r.applyClause c).columns name = r.columns name := by
        cases c with
        | addField f => exact Function.update_of_ne (fun hn => h (by rw [hn]; rfl)) _ _
        | dropField n => exact Function.update_of_ne (fun hn => h (by rw [hn]; rfl)) _ _
        | alterField f => exact Function.update_of_ne (fun hn => h (by rw [hn]; rfl)) _ _
        | dropIndex i => rfl
        | addIndex i => rfl
      rw [RepresentsAt, RepresentsAt, hcolumns]
  | index i =>
      have hindices : i ∈ (r.applyClause c).indices ↔ i ∈ r.indices := by
        cases c with
        | addField f => exact Iff.rfl
        | dropField n => exact Iff.rfl
        | alterField f => exact Iff.rfl
        | dropIndex j =>
            have hne : i ≠ j := fun hi => h (by rw [hi]; rfl)
            simp [applyClause, hne]
        | addIndex j =>
            have hne : i ≠ j := fun hi => h (by rw [hi]; rfl)
            simp [applyClause, hne]
      rw [RepresentsAt, RepresentsAt, hindices]

/-- **Clauses leave alone what they are not about.** -/
theorem representsAt_applyAll {cs : List Clause} (h : ∀ c ∈ cs, c.subject ≠ x) :
    (r.applyAll cs).RepresentsAt t x ↔ r.RepresentsAt t x := by
  induction cs generalizing r with
  | nil => exact Iff.rfl
  | cons c cs ih =>
      rw [applyAll_cons, ih fun d hd => h d (List.mem_cons_of_mem c hd)]
      exact representsAt_applyClause (h c List.mem_cons_self)

end Relation

end SchemaDelta
