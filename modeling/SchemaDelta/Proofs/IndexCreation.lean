/-
**How often a migration creates an index.**

An index reaches the server on two ways: as a clause of its own, and inside the definition of a
column whose qualifiers imply it.  The indices of two tables and their columns are compared apart
from each other, so an index may go both ways, or be sent although it is there.

This module counts the clauses that create an index and says exactly when a migration creates an
index that is there not at all and any other at most once: when every column that implies the index
is left alone, and no index that is new occurs twice in the later table.

Main definitions:

* `SchemaDelta.Clause.creates` — a clause creates an index;
* `SchemaDelta.Table.LeavesAlone` — no clause is about a column.

Main results:

* `SchemaDelta.Table.countP_creates_clausesTo` — the number of clauses that create an index;
* `SchemaDelta.Delta.countP_creates_le_iff` — **when an index is created no more than needed**;
* `SchemaDelta.Delta.exists_created_twice` — a new column with a key creates its index twice.
-/

import SchemaDelta.Proofs.Migration
import SchemaDelta.Script.Writing

set_option relaxedAutoImplicit false
set_option autoImplicit false

namespace SchemaDelta

/-- A clause creates an index when it adds it, or when it writes the definition of a column that
implies it. -/
def Clause.creates (i : Index) : Clause → Bool
  | .addIndex j => j == i
  | .addField f | .alterField f => f.index? == some i
  | .dropField _ | .dropIndex _ => false

namespace Table

/-- A column of the later table is left alone when the earlier table has a column of its name with
the same definition, and only columns that changed are altered. -/
def LeavesAlone (b : Table) (o : Options) (f : Field) : Prop :=
  ∃ g, b.field? f.name = some g ∧ o.alterUnchanged = false ∧ g.sameDefinition f = true

instance (b : Table) (o : Options) (f : Field) : Decidable (b.LeavesAlone o f) :=
  decidable_of_iff ((b.field? f.name).any fun g => !o.alterUnchanged && g.sameDefinition f) (by
    simp [LeavesAlone, Option.any_eq_true])

variable {b a : Table} {o : Options}

/-- What is not left alone is added or altered. -/
theorem leavesAlone_iff {f : Field} (hf : f ∈ a.fields) :
    b.LeavesAlone o f ↔ f ∉ addedFields b a ∧ f ∉ alteredFields b a o := by
  simp only [LeavesAlone, addedFields, alteredFields, List.mem_filter, hf, true_and]
  cases hb : b.field? f.name with
  | none => simp
  | some g => cases ho : o.alterUnchanged <;> simp

theorem count_addedIndices (b a : Table) (i : Index) :
    (addedIndices b a).count i = if i ∈ b.indices then 0 else a.indices.count i := by
  by_cases hi : i ∈ b.indices
  · rw [if_pos hi]
    refine List.count_eq_zero.2 fun hmem => ?_
    obtain ⟨-, hnot⟩ := List.mem_filter.1 hmem
    simp [hi] at hnot
  · rw [if_neg hi, addedIndices]
    exact List.count_filter (by simpa using hi)

/-- The clauses that create an index: the columns that bring it along, and the clause of its own. -/
theorem countP_creates_clausesTo (b a : Table) (o : Options) (i : Index) :
    (b.clausesTo a o).countP (Clause.creates i) =
      (addedFields b a).countP (fun f => f.index? == some i) +
        (alteredFields b a o).countP (fun f => f.index? == some i) +
        if i ∈ b.indices then 0 else a.indices.count i := by
  have hdropField : ((droppedFields b a).map Clause.dropField).countP (Clause.creates i) = 0 := by
    rw [List.countP_map]
    exact List.countP_eq_zero.2 fun n _ => by simp [Clause.creates]
  have hdropIndex : ((droppedIndices b a).map Clause.dropIndex).countP (Clause.creates i) = 0 := by
    rw [List.countP_map]
    exact List.countP_eq_zero.2 fun j _ => by simp [Clause.creates]
  have haddIndex : ((addedIndices b a).map Clause.addIndex).countP (Clause.creates i) =
      if i ∈ b.indices then 0 else a.indices.count i := by
    rw [List.countP_map, ← count_addedIndices]
    rfl
  simp only [clausesTo, List.countP_append, hdropField, hdropIndex, haddIndex, List.countP_map,
    Nat.add_zero]
  rfl

/-- An index is created no more than needed exactly when no column brings it along and, if it is
new, the later table has it once. -/
theorem countP_creates_clausesTo_le_iff (b a : Table) (o : Options) (i : Index) :
    (b.clausesTo a o).countP (Clause.creates i) ≤ (if i ∈ b.indices then 0 else 1) ↔
      (∀ f ∈ a.fields, f.index? = some i → b.LeavesAlone o f) ∧
        (i ∈ b.indices ∨ a.indices.count i ≤ 1) := by
  rw [countP_creates_clausesTo]
  constructor
  · intro h
    -- a column that brings the index along is one clause; if the index is new, it is another
    have hnone : ∀ f ∈ a.fields, f.index? = some i → b.LeavesAlone o f := by
      intro f hf hfi
      rw [leavesAlone_iff hf]
      have hmem : i ∈ a.indices := mem_indices.2 (.inr ⟨f, hf, hfi⟩)
      have hone : 1 ≤ a.indices.count i := List.one_le_count_iff.2 hmem
      constructor
      · intro hadd
        have hpos : 0 < (addedFields b a).countP (fun f => f.index? == some i) :=
          List.countP_pos_iff.2 ⟨f, hadd, by simp [hfi]⟩
        split at h <;> omega
      · intro halter
        have hpos : 0 < (alteredFields b a o).countP (fun f => f.index? == some i) :=
          List.countP_pos_iff.2 ⟨f, halter, by simp [hfi]⟩
        split at h <;> omega
    refine ⟨hnone, ?_⟩
    by_cases hi : i ∈ b.indices
    · exact .inl hi
    · rw [if_neg hi, if_neg hi] at h
      exact .inr (by omega)
  · rintro ⟨hnone, honce⟩
    have hadded : (addedFields b a).countP (fun f => f.index? == some i) = 0 := by
      refine List.countP_eq_zero.2 fun f hf hfi => ?_
      have hfa : f ∈ a.fields := List.mem_of_mem_filter hf
      exact ((leavesAlone_iff hfa).1 (hnone f hfa (by simpa using hfi))).1 hf
    have haltered : (alteredFields b a o).countP (fun f => f.index? == some i) = 0 := by
      refine List.countP_eq_zero.2 fun f hf hfi => ?_
      have hfa : f ∈ a.fields := List.mem_of_mem_filter hf
      exact ((leavesAlone_iff hfa).1 (hnone f hfa (by simpa using hfi))).2 hf
    rw [hadded, haltered]
    by_cases hi : i ∈ b.indices
    · simp [hi]
    · rw [if_neg hi, if_neg hi]
      simpa using honce.resolve_left hi

end Table

namespace Delta

/-- **When a migration creates an index no more than needed**: not at all if the earlier table has
it, and at most once otherwise. -/
theorem countP_creates_le_iff {before after : Schema} {name : Text} {b a : Table}
    (hb : before.table? name = some b) (ha : after.table? name = some a) (o : Options)
    (i : Index) :
    ((between before after o).clausesFor name).countP (Clause.creates i) ≤
        (if i ∈ b.indices then 0 else 1) ↔
      (∀ f ∈ a.fields, f.index? = some i → b.LeavesAlone o f) ∧
        (i ∈ b.indices ∨ a.indices.count i ≤ 1) := by
  rw [clausesFor_between, Schema.clausesAt?_of_both hb ha]
  exact Table.countP_creates_clausesTo_le_iff b a o i

/-- The table `t` with one column of integers. -/
def plainTable : Table :=
  { name := "t".toList, fields := [⟨"a".toList, "int".toList, [], []⟩], declared := [] }

/-- The same table with a second column that is the primary key. -/
def keyedTable : Table :=
  { plainTable with
    fields := plainTable.fields ++ [⟨"b".toList, "int".toList, [], [.primaryKey]⟩] }

/-- The columns are left alone and the declared index is new, so it is created once. -/
theorem countP_creates_le_iff_keyed :
    let before : Schema := ⟨[.createTable keyedTable]⟩
    let after : Schema := ⟨[.createTable { keyedTable with declared := [.uniqueOn "a".toList] }]⟩
    ((between before after .skipUnchanged).clausesFor "t".toList).countP
        (Clause.creates (.uniqueOn "a".toList)) ≤
      (if Index.uniqueOn "a".toList ∈ keyedTable.indices then 0 else 1) :=
  (countP_creates_le_iff rfl rfl .skipUnchanged (.uniqueOn "a".toList)).2 ⟨by decide, by decide⟩

/-- **A new column that is the primary key creates it twice**, in its own definition and by a clause
beside it; and where unchanged columns are altered as well, a primary key that is there is created
again. -/
theorem exists_created_twice :
    let plain : Schema := ⟨[.createTable plainTable]⟩
    let keyed : Schema := ⟨[.createTable keyedTable]⟩
    let key := Index.primaryOn "b".toList
    plain.DistinctColumns ∧ keyed.DistinctColumns ∧
      plain.table? "t".toList = some plainTable ∧ keyed.table? "t".toList = some keyedTable ∧
      key ∉ plainTable.indices ∧
      ((between plain keyed .skipUnchanged).clausesFor "t".toList).countP (Clause.creates key) = 2 ∧
      (between plain keyed .skipUnchanged).alters.map (fun a => Generator.mysql.alterTable a.1 a.2) =
        ["ALTER TABLE `t` ADD COLUMN `b` INT PRIMARY KEY,\n  ADD PRIMARY KEY (`b`);".toList] ∧
      key ∈ keyedTable.indices ∧
      ((between keyed keyed {}).clausesFor "t".toList).countP (Clause.creates key) = 1 := by
  decide +kernel

end Delta

end SchemaDelta
