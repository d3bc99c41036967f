/-
**The delta in the other direction.**

What one delta creates the delta in the other direction drops, and what it adds to a table the other
one removes.  Names that are given to several tables or columns make no difference to this: either
side goes over its own list and looks the names up in the other one.  They do make a difference to
the columns that are altered, where one side looks up the last column of a name and the other one
goes over all of them; where no name is given twice, both directions alter the same columns and,
as nothing else is left, the same tables.

Main results:

* `SchemaDelta.Table.subjects_clausesTo_reverse` — between two tables, what is added in one
  direction is removed in the other one, in the same order;
* `SchemaDelta.Table.mem_alterField_reverse` — the same columns are altered;
* `SchemaDelta.Delta.between_reverse` — **the delta in the other direction does the reverse**.
-/

import SchemaDelta.Proofs.Subject

set_option relaxedAutoImplicit false
set_option autoImplicit false

namespace SchemaDelta

open Clause (Kind)

/-! ### Between two tables -/

namespace Table

variable {b a : Table} {o : Options}

/-- What is added in one direction is removed in the other one, in the same order. -/
theorem subjects_clausesTo_reverse (b a : Table) (o : Options) {k : Kind} (hk : k ≠ .alterField) :
    subjectsOf (b.clausesTo a o) k = subjectsOf (a.clausesTo b o) k.reverse := by
  rw [subjects_clausesTo, subjects_clausesTo]
  cases k with
  | addField => exact (List.map_map (l := addedFields b a)).symm
  | dropField => exact List.map_map (l := addedFields a b)
  | alterField => exact absurd rfl hk
  | dropIndex => rfl
  | addIndex => rfl

/-- The names of the columns that are altered, with the definitions on either side. -/
theorem exists_mem_alteredFields (ha : a.DistinctColumns) {name : Text} :
    (∃ f ∈ alteredFields b a o, f.name = name) ↔
      ∃ previous f, b.field? name = some previous ∧ a.field? name = some f ∧
        (o.alterUnchanged || !previous.sameDefinition f) = true := by
  constructor
  · rintro ⟨f, hf, rfl⟩
    obtain ⟨hmem, hchanged⟩ := List.mem_filter.1 hf
    cases hb : b.field? f.name with
    | none => rw [hb] at hchanged; cases hchanged
    | some previous =>
        rw [hb] at hchanged
        exact ⟨previous, f, rfl, lastNamed?_of_mem_of_nodup ha hmem, hchanged⟩
  · rintro ⟨previous, f, hb, hf, hchanged⟩
    obtain ⟨hmem, rfl⟩ := mem_and_name_of_lastNamed? hf
    exact ⟨f, List.mem_filter.2 ⟨hmem, by rw [hb]; exact hchanged⟩, rfl⟩

/-- Definitions agree in either direction, so the same columns are altered. -/
theorem mem_alterField_reverse (hb : b.DistinctColumns) (ha : a.DistinctColumns) (x : Subject) :
    x ∈ subjectsOf (b.clausesTo a o) .alterField ↔ x ∈ subjectsOf (a.clausesTo b o) .alterField := by
  have hsame : ∀ f g : Field, f.sameDefinition g = g.sameDefinition f := fun f g =>
    Bool.eq_iff_iff.2 ⟨Field.sameDefinition_symm, Field.sameDefinition_symm⟩
  have hforth : ∀ name, (∃ f ∈ alteredFields b a o, f.name = name) ↔
      ∃ f ∈ alteredFields a b o, f.name = name := by
    intro name
    rw [exists_mem_alteredFields ha, exists_mem_alteredFields hb]
    constructor
    · rintro ⟨previous, f, hprevious, hf, h⟩
      exact ⟨f, previous, hf, hprevious, by rwa [hsame]⟩
    · rintro ⟨f, previous, hf, hprevious, h⟩
      exact ⟨previous, f, hprevious, hf, by rwa [hsame]⟩
  rw [subjects_clausesTo, subjects_clausesTo]
  cases x with
  | column name => simpa using hforth name
  | index i => simp

/-- There is something to do in one direction exactly when there is in the other one. -/
theorem clausesTo_eq_nil_reverse (hb : b.DistinctColumns) (ha : a.DistinctColumns) :
    b.clausesTo a o = [] ↔ a.clausesTo b o = [] := by
  have hstep : ∀ b a : Table, b.DistinctColumns → a.DistinctColumns → b.clausesTo a o = [] →
      a.clausesTo b o = [] := by
    intro b a hb ha h
    refine (eq_nil_iff_subjectsOf _).2 fun k => ?_
    by_cases hk : k = .alterField
    · subst hk
      refine List.eq_nil_iff_forall_not_mem.2 fun x hx => ?_
      rw [mem_alterField_reverse ha hb, h] at hx
      cases hx
    · rw [subjects_clausesTo_reverse a b o hk, h]
      rfl
  exact ⟨hstep b a hb ha, hstep a b ha hb⟩

end Table

/-! ### Between two schemas -/

namespace Delta

variable {before after : Schema} {o : Options}

/-- A table has clauses only if both schemas define it. -/
theorem clausesFor_between_cases (before after : Schema) (name : Text) :
    (∃ b a, before.table? name = some b ∧ after.table? name = some a ∧
      ∀ o, (between before after o).clausesFor name = b.clausesTo a o ∧
        (between after before o).clausesFor name = a.clausesTo b o) ∨
      ∀ o, (between before after o).clausesFor name = [] ∧
        (between after before o).clausesFor name = [] := by
  cases hb : before.table? name with
  | none => exact .inr fun o => by simp [clausesFor_between, Schema.clausesAt?, hb]
  | some b =>
      cases ha : after.table? name with
      | none => exact .inr fun o => by simp [clausesFor_between, Schema.clausesAt?, ha]
      | some a =>
          exact .inl ⟨b, a, rfl, rfl, fun o =>
            ⟨clausesFor_between_of_both hb ha o, clausesFor_between_of_both ha hb o⟩⟩

/-- The names of the created tables are those that are dropped in the other direction. -/
theorem map_name_creates (before after : Schema) (o : Options) :
    (between before after o).creates.map Table.name = (between after before o).drops :=
  (List.filter_map (f := Table.name) (p := fun name => !before.hasTable name)).symm

/-- The altered tables are those with clauses. -/
theorem mem_alters_iff {name : Text} :
    name ∈ (between before after o).alters.map Prod.fst ↔
      (between before after o).clausesFor name ≠ [] := by
  rw [clausesFor_between, List.mem_map]
  constructor
  · rintro ⟨⟨n, cs⟩, hmem, rfl⟩
    have hcs := mem_alters_between.1 hmem
    obtain ⟨-, -, -, -, -, hne⟩ := Schema.clausesAt?_eq_some_iff.1 hcs
    rw [hcs]
    exact hne
  · intro hne
    cases hcs : before.clausesAt? after o name with
    | none => rw [hcs] at hne; exact absurd rfl hne
    | some cs => exact ⟨(name, cs), mem_alters_between.2 hcs, rfl⟩

/-- **The delta in the other direction does the reverse.**  It drops the tables that the one creates
and creates those that the one drops, and of each table it removes what the one adds and adds what
the one removes, in the same order.  Where no table gives a name to two columns, both alter the same
columns of the same tables. -/
theorem between_reverse (before after : Schema) (o : Options) :
    let forth := between before after o
    let back := between after before o
    (forth.creates.map Table.name = back.drops ∧ forth.drops = back.creates.map Table.name) ∧
      (∀ name k, k ≠ Kind.alterField →
        forth.subjects name k = back.subjects name k.reverse) ∧
      (before.DistinctColumns → after.DistinctColumns →
        (∀ name x, x ∈ forth.subjects name .alterField ↔ x ∈ back.subjects name .alterField) ∧
          forth.alters.map Prod.fst = back.alters.map Prod.fst) := by
  intro forth back
  refine ⟨⟨map_name_creates before after o, (map_name_creates after before o).symm⟩,
    fun name k hk => ?_, fun hb ha => ⟨fun name x => ?_, ?_⟩⟩
  · rcases clausesFor_between_cases before after name with ⟨b, a, -, -, hboth⟩ | hnone
    · rw [subjects, subjects, (hboth o).1, (hboth o).2]
      exact Table.subjects_clausesTo_reverse b a o hk
    · rw [subjects, subjects, (hnone o).1, (hnone o).2]
      rfl
  · rcases clausesFor_between_cases before after name with ⟨b, a, hbt, hat, hboth⟩ | hnone
    · rw [subjects, subjects, (hboth o).1, (hboth o).2]
      exact Table.mem_alterField_reverse (hb b (Schema.mem_tables_of_table? hbt))
        (ha a (Schema.mem_tables_of_table? hat)) x
    · rw [subjects, subjects, (hnone o).1, (hnone o).2]
  · refine eq_of_ascending id ?_ ?_ fun name => ?_
    · rw [List.map_id]
      exact pairwise_alters_between before after o
    · rw [List.map_id]
      exact pairwise_alters_between after before o
    rw [mem_alters_iff, mem_alters_iff]
    rcases clausesFor_between_cases before after name with ⟨b, a, hbt, hat, hboth⟩ | hnone
    · rw [(hboth o).1, (hboth o).2]
      exact not_congr (Table.clausesTo_eq_nil_reverse (hb b (Schema.mem_tables_of_table? hbt))
        (ha a (Schema.mem_tables_of_table? hat)))
    · rw [(hnone o).1, (hnone o).2]

/-- A table that is created twice, and one with a changed, a new and a lost column and a key that
moves. -/
theorem between_reverse_moved :
    let column : Text → Text → List Qualifier → Field := fun name type qs => ⟨name, type, [], qs⟩
    let plain : Schema := ⟨[.createTable ⟨['t'],
      [column ['a'] "int".toList [.primaryKey], column ['b'] "int".toList []], []⟩]⟩
    let moved : Schema := ⟨[.createTable ⟨['u'], [], []⟩, .createTable ⟨['t'],
      [column ['c'] "int".toList [], column ['a'] "text".toList []], [.uniqueOn ['a']]⟩,
      .createTable ⟨['u'], [column ['a'] "int".toList []], []⟩]⟩
    plain.DistinctColumns ∧ moved.DistinctColumns ∧
      (between plain moved .skipUnchanged).creates.map Table.name = [['u'], ['u']] ∧
      (between moved plain .skipUnchanged).drops = [['u'], ['u']] ∧
      (between plain moved .skipUnchanged).clausesFor ['t'] =
        [.addField (column ['c'] "int".toList []), .dropField ['b'],
          .alterField (column ['a'] "text".toList []), .dropIndex (.primaryOn ['a']),
          .addIndex (.uniqueOn ['a'])] ∧
      (between moved plain .skipUnchanged).subjects ['t'] .dropField = [.column ['c']] ∧
      (between moved plain .skipUnchanged).subjects ['t'] .addIndex = [.index (.primaryOn ['a'])] ∧
      (∀ x, x ∈ (between plain moved .skipUnchanged).subjects ['t'] .alterField ↔
        x ∈ (between moved plain .skipUnchanged).subjects ['t'] .alterField) ∧
      (between plain moved .skipUnchanged).alters.map Prod.fst =
        (between moved plain .skipUnchanged).alters.map Prod.fst := by
  intro column plain moved
  have hplain : plain.DistinctColumns := by decide
  have hmoved : moved.DistinctColumns := by decide
  obtain ⟨⟨hcreates, -⟩, hsubjects, hdistinct⟩ := between_reverse plain moved .skipUnchanged
  have htwice : (between plain moved .skipUnchanged).creates.map Table.name = [['u'], ['u']] := by
    decide
  have hclauses : (between plain moved .skipUnchanged).clausesFor ['t'] =
      [.addField (column ['c'] "int".toList []), .dropField ['b'],
        .alterField (column ['a'] "text".toList []), .dropIndex (.primaryOn ['a']),
        .addIndex (.uniqueOn ['a'])] := by
    decide
  have hadded : (between plain moved .skipUnchanged).subjects ['t'] .addField =
      [.column ['c']] := by
    rw [subjects, hclauses]
    rfl
  have hdropped : (between plain moved .skipUnchanged).subjects ['t'] .dropIndex =
      [.index (.primaryOn ['a'])] := by
    rw [subjects, hclauses]
    rfl
  obtain ⟨haltered, htables⟩ := hdistinct hplain hmoved
  exact ⟨hplain, hmoved, htwice, hcreates ▸ htwice, hclauses,
    (hsubjects ['t'] .addField (by decide)).symm.trans hadded,
    (hsubjects ['t'] .dropIndex (by decide)).symm.trans hdropped, haltered ['t'], htables⟩

end Delta

end SchemaDelta
