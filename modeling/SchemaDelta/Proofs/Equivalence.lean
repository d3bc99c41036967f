/-
**An empty delta means equivalence.**

Two schemas are equivalent when they define tables of the same names and the last tables of each
name have the same columns, by name and definition, and the same indices.  That is what a delta
measures when unchanged columns are passed over: it is empty exactly between equivalent schemas.
Tables defined twice and indices that repeat make no difference, since only the last table of a
name and the set of its indices count.

Equivalence does not tell the earlier schema from the later one, so a delta is empty in one
direction exactly when it is in the other.

Main definitions:

* `SchemaDelta.Table.Equivalent`, `SchemaDelta.Schema.Equivalent` — the same columns and indices
  under the same names.

Main results:

* `SchemaDelta.Table.clausesTo_eq_nil_iff` — between two tables there is nothing to do exactly when
  they are equivalent;
* `SchemaDelta.Delta.isEmpty_between_iff` — **a delta is empty exactly between equivalent schemas**,
  and in both directions or in none.
-/

import SchemaDelta.Proofs.Migration

set_option relaxedAutoImplicit false
set_option autoImplicit false

namespace SchemaDelta

/-! ### Equivalent tables -/

/-- Two tables have the same columns, by name and definition, and the same indices. -/
structure Table.Equivalent (b a : Table) : Prop where
  /-- The same names are given to columns. -/
  names : ∀ name, (∃ f ∈ b.fields, f.name = name) ↔ ∃ f ∈ a.fields, f.name = name
  /-- Columns of one name have the same definition. -/
  definitions : ∀ name f g, b.field? name = some f → a.field? name = some g →
    f.sameDefinition g = true
  /-- The same indices are declared or implied. -/
  indices : ∀ i, i ∈ b.indices ↔ i ∈ a.indices

namespace Table

variable {b a : Table}

theorem Equivalent.symm (h : b.Equivalent a) : a.Equivalent b where
  names name := (h.names name).symm
  definitions name f g hf hg := Field.sameDefinition_symm (h.definitions name g f hg hf)
  indices i := (h.indices i).symm

/-- No column is added when the earlier table has all the names of the later one. -/
theorem addedFields_eq_nil_iff :
    addedFields b a = [] ↔ ∀ f ∈ a.fields, ∃ g ∈ b.fields, g.name = f.name := by
  rw [addedFields, List.filter_eq_nil_iff]
  refine forall₂_congr fun f _ => ?_
  rw [← field?_isSome_iff, Option.isNone_iff_eq_none]
  exact Option.isSome_iff_ne_none.symm

/-- No column is dropped when the later table has all the names of the earlier one. -/
theorem droppedFields_eq_nil_iff :
    droppedFields b a = [] ↔ ∀ f ∈ b.fields, ∃ g ∈ a.fields, g.name = f.name := by
  rw [droppedFields, List.map_eq_nil_iff]
  exact addedFields_eq_nil_iff

/-- With different names in the later table, no column is altered when those of one name have the
same definition. -/
theorem alteredFields_eq_nil_iff (ha : a.DistinctColumns) :
    alteredFields b a .skipUnchanged = [] ↔
      ∀ name f g, b.field? name = some f → a.field? name = some g → f.sameDefinition g = true := by
  constructor
  · intro hnil name f g hf hg
    have hlast := lastNamed?_alteredFields ha .skipUnchanged hf hg
    rw [hnil, lastNamed?_nil] at hlast
    by_contra hdiff
    rw [if_pos (by simpa [Options.skipUnchanged] using hdiff)] at hlast
    cases hlast
  · intro hsame
    rw [alteredFields, List.filter_eq_nil_iff]
    intro g hg
    cases hf : b.field? g.name with
    | none => simp
    | some f =>
        have hlast : a.field? g.name = some g := lastNamed?_of_mem_of_nodup ha hg
        simp [Options.skipUnchanged, hsame g.name f g hf hlast]

/-- No index is dropped or added when both tables have the same ones. -/
theorem changedIndices_eq_nil_iff :
    droppedIndices b a = [] ∧ addedIndices b a = [] ↔ ∀ i, i ∈ b.indices ↔ i ∈ a.indices := by
  simp only [droppedIndices, addedIndices, List.filter_eq_nil_iff, Bool.not_eq_true',
    Bool.not_eq_false, List.contains_eq_mem, decide_eq_true_eq]
  constructor
  · rintro ⟨hdropped, hadded⟩ i
    exact ⟨hdropped i, hadded i⟩
  · intro hsame
    exact ⟨fun i => (hsame i).1, fun i => (hsame i).2⟩

/-- **Between two tables there is nothing to do exactly when they are equivalent.** -/
theorem clausesTo_eq_nil_iff (ha : a.DistinctColumns) :
    b.clausesTo a .skipUnchanged = [] ↔ b.Equivalent a := by
  simp only [clausesTo, List.append_eq_nil_iff, List.map_eq_nil_iff]
  rw [and_assoc, changedIndices_eq_nil_iff, alteredFields_eq_nil_iff ha, addedFields_eq_nil_iff,
    droppedFields_eq_nil_iff]
  constructor
  · rintro ⟨⟨⟨hadded, hdropped⟩, hdefinitions⟩, hindices⟩
    refine ⟨fun name => ⟨?_, ?_⟩, hdefinitions, hindices⟩
    · rintro ⟨f, hf, rfl⟩
      exact hdropped f hf
    · rintro ⟨f, hf, rfl⟩
      exact hadded f hf
  · intro h
    exact ⟨⟨⟨fun f hf => (h.names f.name).2 ⟨f, hf, rfl⟩,
      fun f hf => (h.names f.name).1 ⟨f, hf, rfl⟩⟩, h.definitions⟩, h.indices⟩

end Table

/-! ### Equivalent schemas -/

/-- Two schemas define tables of the same names, and the last tables of each name are equivalent. -/
structure Schema.Equivalent (before after : Schema) : Prop where
  /-- The same names are given to tables. -/
  names : ∀ name, name ∈ before.tableNames ↔ name ∈ after.tableNames
  /-- The last tables of one name are equivalent. -/
  tables : ∀ name b a, before.table? name = some b → after.table? name = some a → b.Equivalent a

namespace Schema

variable {before after : Schema}

theorem Equivalent.symm (h : before.Equivalent after) : after.Equivalent before where
  names name := (h.names name).symm
  tables name b a hb ha := (h.tables name a b ha hb).symm

end Schema

namespace Delta

variable {before after : Schema} {o : Options}

theorem creates_eq_nil_iff :
    (between before after o).creates = [] ↔ ∀ name ∈ after.tableNames, name ∈ before.tableNames := by
  simp only [between, List.filter_eq_nil_iff, Schema.tableNames, List.forall_mem_map,
    Bool.not_eq_true', Bool.not_eq_false]
  exact forall₂_congr fun t _ => Schema.hasTable_iff

theorem drops_eq_nil_iff :
    (between before after o).drops = [] ↔ ∀ name ∈ before.tableNames, name ∈ after.tableNames := by
  simp only [between, List.filter_eq_nil_iff, Bool.not_eq_true', Bool.not_eq_false]
  exact forall₂_congr fun name _ => Schema.hasTable_iff

/-- No table is altered when there is nothing to do between the last tables of each name. -/
theorem alters_eq_nil_iff :
    (between before after o).alters = [] ↔ ∀ name b a, before.table? name = some b →
      after.table? name = some a → b.clausesTo a o = [] := by
  rw [alters_between, List.filterMap_eq_nil_iff]
  constructor
  · intro hnone name b a hb ha
    have hmem : name ∈ sortedNames after.tableNames := by
      rw [mem_sortedNames, ← Schema.hasTable_iff, Schema.hasTable, ha]
      rfl
    have hclauses := hnone name hmem
    rw [Option.map_eq_none_iff] at hclauses
    have hat := Schema.clausesAt?_of_both hb ha o
    rw [hclauses, Option.getD_none] at hat
    exact hat.symm
  · intro hnil name _
    rw [Option.map_eq_none_iff, Schema.clausesAt?]
    cases hb : before.table? name with
    | none => rfl
    | some b =>
        cases ha : after.table? name with
        | none => rfl
        | some a => simp [hnil name b a hb ha]

/-- A delta that passes over unchanged columns is empty exactly between equivalent schemas. -/
theorem isEmpty_between_skipUnchanged (ha : after.DistinctColumns) :
    (between before after .skipUnchanged).isEmpty = true ↔ before.Equivalent after := by
  rw [isEmpty_iff, creates_eq_nil_iff, alters_eq_nil_iff, drops_eq_nil_iff]
  constructor
  · rintro ⟨hcreates, halters, hdrops⟩
    refine ⟨fun name => ⟨hdrops name, hcreates name⟩, fun name b a hb hat => ?_⟩
    have hdistinct : a.DistinctColumns := ha a (Schema.mem_tables_of_table? hat)
    exact (Table.clausesTo_eq_nil_iff hdistinct).1 (halters name b a hb hat)
  · intro h
    refine ⟨fun name => (h.names name).2, fun name b a hb hat => ?_, fun name => (h.names name).1⟩
    have hdistinct : a.DistinctColumns := ha a (Schema.mem_tables_of_table? hat)
    exact (Table.clausesTo_eq_nil_iff hdistinct).2 (h.tables name b a hb hat)

/-- **A delta that passes over unchanged columns is empty exactly between equivalent schemas**, and
so it is empty in one direction exactly when it is in the other. -/
theorem isEmpty_between_iff (hb : before.DistinctColumns) (ha : after.DistinctColumns) :
    ((between before after .skipUnchanged).isEmpty = true ↔ before.Equivalent after) ∧
      ((between before after .skipUnchanged).isEmpty = true ↔
        (between after before .skipUnchanged).isEmpty = true) := by
  have hforth : (between before after .skipUnchanged).isEmpty = true ↔ before.Equivalent after :=
    isEmpty_between_skipUnchanged ha
  have hback : (between after before .skipUnchanged).isEmpty = true ↔ after.Equivalent before :=
    isEmpty_between_skipUnchanged hb
  exact ⟨hforth, hforth.trans (Iff.trans ⟨fun h => h.symm, fun h => h.symm⟩ hback.symm)⟩

/-- A key that moves from a column to the declared indices, in a table that is defined twice, and
columns in another order. -/
theorem isEmpty_between_iff_moved :
    let column : Text → List Qualifier → Field := fun name qs => ⟨name, "int".toList, [], qs⟩
    let implied : Schema := ⟨[.createTable ⟨['t'], [column ['c'] []], []⟩,
      .createTable ⟨['t'], [column ['a'] [.primaryKey], column ['b'] [.null]], []⟩]⟩
    let declared : Schema := ⟨[.ignored, .createTable ⟨['t'],
      [column ['b'] [.null], column ['a'] []], [.primaryOn ['a'], .primaryOn ['a']]⟩]⟩
    (between implied declared .skipUnchanged).isEmpty = true ∧ implied.Equivalent declared := by
  intro column implied declared
  have hempty : (between implied declared .skipUnchanged).isEmpty = true := by decide
  exact ⟨hempty, (isEmpty_between_iff (by decide) (by decide)).1.1 hempty⟩

end Delta

end SchemaDelta
