/-
**The clauses of one table in a delta.**

A delta lists the altered tables with their clauses, without those that have none.  Looked up by
name, a table that both schemas have gets the clauses that lead from its last earlier definition to
its last later one, and any other name gets none.

Main definitions:

* `SchemaDelta.Delta.clausesFor` — the clauses of a delta for the table of a name.

Main results:

* `SchemaDelta.Delta.clausesFor_between` — **which clauses a table gets**;
* `SchemaDelta.Delta.alters_between` — the alterations, one name after the other;
* `SchemaDelta.Delta.pairwise_alters_between` — the altered tables are in ascending order of their
  names.
-/

import Mathlib.Data.List.Basic
import SchemaDelta.Delta.Between
import SchemaDelta.Proofs.Naming

set_option relaxedAutoImplicit false
set_option autoImplicit false

namespace SchemaDelta

/-- The clauses of a delta for the table of the given name; none where the table is not altered. -/
def Delta.clausesFor (d : Delta) (name : Text) : List Clause :=
  (d.alters.lookup name).getD []

/-- The clauses for a name, if both schemas have a table of that name and there is something to
do. -/
def Schema.clausesAt? (before after : Schema) (o : Options) (name : Text) : Option (List Clause) :=
  (before.table? name).bind fun b =>
    (after.table? name).bind fun a =>
      let clauses := b.clausesTo a o
      if clauses.isEmpty then none else some clauses

theorem Schema.clausesAt?_of_both {before after : Schema} {name : Text} {b a : Table}
    (hb : before.table? name = some b) (ha : after.table? name = some a) (o : Options) :
    (before.clausesAt? after o name).getD [] = b.clausesTo a o := by
  simp only [clausesAt?, hb, ha, Option.bind_some]
  by_cases hempty : (b.clausesTo a o).isEmpty = true
  · rw [if_pos hempty, Option.getD_none]
    exact (List.isEmpty_iff.1 hempty).symm
  · rw [if_neg hempty, Option.getD_some]

/-- There are clauses for a name when both schemas have a table of it and the last ones differ. -/
theorem Schema.clausesAt?_eq_some_iff {before after : Schema} {o : Options} {name : Text}
    {cs : List Clause} :
    before.clausesAt? after o name = some cs ↔
      ∃ b a, before.table? name = some b ∧ after.table? name = some a ∧ b.clausesTo a o = cs ∧
        cs ≠ [] := by
  simp only [clausesAt?, Option.bind_eq_some_iff]
  refine exists_congr fun b => ?_
  rw [← exists_and_left]
  refine exists_congr fun a => and_congr_right fun _ => and_congr_right fun _ => ?_
  by_cases hempty : b.clausesTo a o = []
  · rw [if_pos (List.isEmpty_iff.2 hempty), hempty]
    constructor
    · intro h
      cases h
    · rintro ⟨rfl, hne⟩
      exact absurd rfl hne
  · rw [if_neg (mt List.isEmpty_iff.1 hempty), Option.some.injEq]
    constructor
    · rintro rfl
      exact ⟨rfl, hempty⟩
    · exact And.left

namespace Delta

theorem alters_between (before after : Schema) (o : Options) :
    (between before after o).alters =
      (sortedNames after.tableNames).filterMap fun n =>
        (before.clausesAt? after o n).map fun cs => (n, cs) := by
  rw [between, Schema.tablesByName, lastByName, List.filterMap_filterMap]
  refine List.filterMap_congr fun n _ => ?_
  unfold Schema.clausesAt? Schema.table?
  cases lastNamed? Table.name n after.tables with
  | none => simp
  | some a =>
      simp only [Option.map_some, Option.bind_some, Schema.alteration?, Schema.table?]
      cases lastNamed? Table.name n before.tables with
      | none => rfl
      | some b =>
          simp only [Option.bind_some]
          cases b.clausesTo a o with
          | nil => rfl
          | cons c cs => rfl

/-- **Which clauses the table of a name gets.** -/
theorem clausesFor_between (before after : Schema) (o : Options) (name : Text) :
    (between before after o).clausesFor name = (before.clausesAt? after o name).getD [] := by
  rw [clausesFor, alters_between, lookup_filterMap_of_nodup (nodup_sortedNames _)]
  by_cases hmem : name ∈ after.tableNames
  · rw [if_pos (mem_sortedNames.2 hmem)]
  · have hnone : after.table? name = none := by
      refine lastNamed?_eq_none_iff.2 fun t ht hn => hmem ?_
      exact List.mem_map.2 ⟨t, ht, hn⟩
    rw [if_neg (mt mem_sortedNames.1 hmem)]
    simp [Schema.clausesAt?, hnone]

/-- A table of both schemas gets the clauses that lead from its last earlier definition to its last
later one. -/
theorem clausesFor_between_of_both {before after : Schema} {name : Text} {b a : Table}
    (hb : before.table? name = some b) (ha : after.table? name = some a) (o : Options) :
    (between before after o).clausesFor name = b.clausesTo a o := by
  rw [clausesFor_between, Schema.clausesAt?_of_both hb ha]

/-- Which tables are altered, and by which clauses. -/
theorem mem_alters_between {before after : Schema} {o : Options} {name : Text} {cs : List Clause} :
    (name, cs) ∈ (between before after o).alters ↔ before.clausesAt? after o name = some cs := by
  rw [alters_between, List.mem_filterMap]
  constructor
  · rintro ⟨n, -, hn⟩
    obtain ⟨cs', hcs, heq⟩ := Option.map_eq_some_iff.1 hn
    cases heq
    exact hcs
  · intro h
    obtain ⟨-, a, -, ha, -⟩ := Schema.clausesAt?_eq_some_iff.1 h
    obtain ⟨hmem, rfl⟩ := mem_and_name_of_lastNamed? ha
    exact ⟨a.name, mem_sortedNames.2 (List.mem_map_of_mem hmem), by rw [h]; rfl⟩

/-- The altered tables stand in strictly ascending order of their names. -/
theorem pairwise_alters_between (before after : Schema) (o : Options) :
    ((between before after o).alters.map Prod.fst).Pairwise (· < ·) := by
  rw [alters_between, List.map_filterMap]
  refine List.Pairwise.filterMap _ ?_ (pairwise_sortedNames after.tableNames)
  intro n m hlt x hx y hy
  simp only [Option.map_map, Option.map_eq_some_iff, Function.comp_apply] at hx hy
  obtain ⟨-, -, rfl⟩ := hx
  obtain ⟨-, -, rfl⟩ := hy
  exact hlt

theorem nodup_alters_between (before after : Schema) (o : Options) :
    ((between before after o).alters.map Prod.fst).Nodup :=
  (pairwise_alters_between before after o).imp fun {n m} (hlt : n < m) (heq : n = m) =>
    List.lt_irrefl m (heq ▸ hlt)

end Delta

end SchemaDelta
