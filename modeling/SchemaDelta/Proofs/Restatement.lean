/-
**Columns that are altered without a change.**

A delta that is as thorough as can be alters every column that both tables have.  Where the earlier
table gives the name the same definition already, the clause only restates it.  Passing over
unchanged columns leaves out these clauses and nothing else: all others stay, in the same order, a
table is left out with its last clause, and tables are created and dropped as before.

This holds whatever names are given twice, since either delta asks the same lookup about each column
of the later table.

Main definitions:

* `SchemaDelta.Table.restates`, `SchemaDelta.Schema.restates` — a clause gives a column the
  definition that it has;
* `SchemaDelta.Schema.withoutRestated?` — an alteration without such clauses.

Main results:

* `SchemaDelta.Table.clausesTo_skipUnchanged` — between two tables exactly these clauses are left
  out;
* `SchemaDelta.Delta.alters_skipUnchanged` — the alterations that are left, in their order;
* `SchemaDelta.Delta.between_skipUnchanged` — **passing over unchanged columns leaves out exactly the
  clauses that restate one**.
-/

import SchemaDelta.Proofs.Alteration

set_option relaxedAutoImplicit false
set_option autoImplicit false

namespace SchemaDelta

/-! ### Between two tables -/

namespace Table

/-- Whether a clause gives a column the definition that the table has under its name already. -/
def restates (b : Table) : Clause → Bool
  | .alterField f => (b.field? f.name).any fun previous => previous.sameDefinition f
  | _ => false

theorem restates_alterField_iff {b : Table} {f : Field} :
    b.restates (.alterField f) = true ↔
      ∃ previous, b.field? f.name = some previous ∧ previous.sameDefinition f = true :=
  Option.any_eq_true _ _

/-- Whether a column that both tables have is altered is asked of its own clause. -/
theorem alteredFields_skipUnchanged (b a : Table) :
    alteredFields b a .skipUnchanged =
      (alteredFields b a {}).filter fun f => !b.restates (.alterField f) := by
  rw [alteredFields, alteredFields, List.filter_filter]
  refine List.filter_congr fun f _ => ?_
  cases hb : b.field? f.name with
  | none => simp
  | some previous => simp [restates, hb, Options.skipUnchanged]

/-- No clause of another kind is left out. -/
theorem filter_map_of_not_restates {α : Type} {b : Table} (clause : α → Clause)
    (h : ∀ x, b.restates (clause x) = false) (xs : List α) :
    (xs.map clause).filter (fun c => !b.restates c) = xs.map clause := by
  rw [List.filter_eq_self]
  intro c hc
  obtain ⟨x, -, rfl⟩ := List.mem_map.1 hc
  rw [h, Bool.not_false]

/-- **Between two tables exactly the clauses are left out that restate a column.** -/
theorem clausesTo_skipUnchanged (b a : Table) :
    b.clausesTo a .skipUnchanged = (b.clausesTo a {}).filter fun c => !b.restates c := by
  have haltered : ((alteredFields b a {}).map Clause.alterField).filter (fun c => !b.restates c) =
      (alteredFields b a .skipUnchanged).map Clause.alterField := by
    rw [List.filter_map, alteredFields_skipUnchanged]
    rfl
  rw [clausesTo, clausesTo, List.filter_append, List.filter_append, List.filter_append,
    List.filter_append, haltered, filter_map_of_not_restates .addField fun _ => rfl,
    filter_map_of_not_restates .dropField fun _ => rfl,
    filter_map_of_not_restates .dropIndex fun _ => rfl,
    filter_map_of_not_restates .addIndex fun _ => rfl]

end Table

/-! ### Between two schemas -/

namespace Schema

/-- Whether a clause for the table of a name gives a column of it the definition that it has. -/
def restates (s : Schema) (name : Text) (c : Clause) : Bool :=
  (s.table? name).any fun b => b.restates c

/-- An alteration without the clauses that restate a column, if there are any others. -/
def withoutRestated? (s : Schema) (e : Text × List Clause) : Option (Text × List Clause) :=
  let kept := e.2.filter fun c => !s.restates e.1 c
  if kept.isEmpty then none else some (e.1, kept)

theorem restates_eq {s : Schema} {name : Text} {b : Table} (hb : s.table? name = some b) :
    s.restates name = b.restates := by
  funext c
  rw [restates, hb]
  rfl

/-- What is left to do for a name when unchanged columns are passed over. -/
theorem clausesAt?_skipUnchanged (before after : Schema) (name : Text) :
    (before.clausesAt? after .skipUnchanged name).map (fun cs => (name, cs)) =
      ((before.clausesAt? after {} name).map fun cs => (name, cs)).bind before.withoutRestated? := by
  cases hb : before.table? name with
  | none => simp [clausesAt?, hb]
  | some b =>
      cases ha : after.table? name with
      | none => simp [clausesAt?, hb, ha]
      | some a =>
          simp only [clausesAt?, hb, ha, Option.bind_some, Table.clausesTo_skipUnchanged]
          by_cases hnil : b.clausesTo a {} = []
          · simp [hnil]
          · rw [if_neg (mt List.isEmpty_iff.1 hnil), Option.map_some, Option.bind_some,
              withoutRestated?, restates_eq hb]
            dsimp only
            split <;> rfl

end Schema

namespace Delta

variable {before after : Schema}

/-- The alterations that are left, in their order. -/
theorem alters_skipUnchanged (before after : Schema) :
    (between before after .skipUnchanged).alters =
      (between before after {}).alters.filterMap before.withoutRestated? := by
  rw [alters_between, alters_between, List.filterMap_filterMap]
  exact List.filterMap_congr fun name _ => Schema.clausesAt?_skipUnchanged before after name

/-- The tables that are altered are those of both schemas between which there is something to do. -/
theorem mem_alters_iff_clausesTo {o : Options} {name : Text} :
    name ∈ (between before after o).alters.map Prod.fst ↔
      ∃ b a, before.table? name = some b ∧ after.table? name = some a ∧ b.clausesTo a o ≠ [] := by
  rw [List.mem_map]
  constructor
  · rintro ⟨⟨n, cs⟩, hmem, rfl⟩
    obtain ⟨b, a, hb, ha, rfl, hne⟩ := Schema.clausesAt?_eq_some_iff.1 (mem_alters_between.1 hmem)
    exact ⟨b, a, hb, ha, hne⟩
  · rintro ⟨b, a, hb, ha, hne⟩
    exact ⟨(name, b.clausesTo a o),
      mem_alters_between.2 (Schema.clausesAt?_eq_some_iff.2 ⟨b, a, hb, ha, rfl, hne⟩), rfl⟩

/-- **Passing over unchanged columns leaves out exactly the clauses that restate one.**  The same
tables are created and dropped.  A table of both schemas gets the other clauses in the same order,
and it is altered if there are any, so there is never more to do. -/
theorem between_skipUnchanged (before after : Schema) :
    let whole := between before after {}
    let changed := between before after .skipUnchanged
    (changed.creates = whole.creates ∧ changed.drops = whole.drops) ∧
      (∀ name b a, before.table? name = some b → after.table? name = some a →
        whole.clausesFor name = b.clausesTo a {} ∧
          changed.clausesFor name = (b.clausesTo a {}).filter fun c => !b.restates c) ∧
      changed.alters = whole.alters.filterMap before.withoutRestated? ∧
      (∀ name, name ∈ changed.alters.map Prod.fst ↔ ∃ b a, before.table? name = some b ∧
        after.table? name = some a ∧ ((b.clausesTo a {}).filter fun c => !b.restates c) ≠ []) ∧
      changed.statementCount ≤ whole.statementCount := by
  intro whole changed
  have halters : changed.alters = whole.alters.filterMap before.withoutRestated? :=
    alters_skipUnchanged before after
  refine ⟨⟨rfl, rfl⟩, fun name b a hb ha => ?_, halters, fun name => ?_, ?_⟩
  · rw [← Table.clausesTo_skipUnchanged]
    exact ⟨clausesFor_between_of_both hb ha {}, clausesFor_between_of_both hb ha .skipUnchanged⟩
  · simp only [← Table.clausesTo_skipUnchanged]
    exact mem_alters_iff_clausesTo
  · have hle : changed.alters.length ≤ whole.alters.length := by
      rw [halters]
      exact List.length_filterMap_le _ _
    exact Nat.add_le_add_right (Nat.add_le_add_left hle _) _

/-- One of two columns is written anew, and a table without a change is passed over. -/
theorem between_skipUnchanged_rewritten :
    let column : Text → Text → List Qualifier → Field := fun name type qs => ⟨name, type, [], qs⟩
    let same : Table := ⟨['u'], [column ['a'] "int".toList [.primaryKey]], []⟩
    let b : Table := ⟨['t'], [column ['a'] "int".toList [], column ['c'] "int".toList [.null]], []⟩
    let a : Table := ⟨['t'], [column ['c'] "text".toList [], column ['a'] "int".toList []], []⟩
    let before : Schema := ⟨[.createTable b, .createTable same]⟩
    let after : Schema := ⟨[.createTable same, .createTable a]⟩
    (between before after {}).alters.map Prod.fst = [['t'], ['u']] ∧
      (between before after .skipUnchanged).clausesFor ['t'] =
        [.alterField (column ['c'] "text".toList [])] ∧
      ['u'] ∉ (between before after .skipUnchanged).alters.map Prod.fst := by
  intro column same b a before after
  obtain ⟨-, hboth, -, hkeys, -⟩ := between_skipUnchanged before after
  obtain ⟨-, hclauses⟩ := hboth ['t'] b a rfl rfl
  refine ⟨by decide, hclauses.trans (by decide), fun hmem => ?_⟩
  obtain ⟨b', a', hb, ha, hne⟩ := (hkeys ['u']).1 hmem
  cases hb
  cases ha
  exact hne (by decide)

end Delta

end SchemaDelta
