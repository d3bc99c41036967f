/-
**Schemas whose statements are rearranged.**

Two statements may change places unless they define tables of the same name, and statements that
define no table may come and go.  What one schema becomes in this way is what has, under each name,
the same definitions in the same order.  A delta sees no more of a schema: it alters the same tables
by the same clauses, and it creates and drops the same ones, each in the order of its own source.

The tables of the later schema are gone through in the order of a map that keeps none, and the
alterations are put into the order of the names.  Whatever order the map has, the delta is the same.

Main definitions:

* `SchemaDelta.Rearranged` — statements in another order, with more or fewer that define no table;
* `SchemaDelta.Schema.Enumerates` — the tables of a schema by name, in any order.

Main results:

* `SchemaDelta.rearranged_iff` — **statements are rearranged exactly when they define the same
  tables in the same order under each name**;
* `SchemaDelta.Delta.ofParts_of_enumerates` — the order of the map makes no difference;
* `SchemaDelta.Delta.between_of_rearranged` — **nor does the order of the statements**.
-/

import Mathlib.Data.List.Perm.Basic
import SchemaDelta.Proofs.Alteration

set_option relaxedAutoImplicit false
set_option autoImplicit false

namespace SchemaDelta

/-! ### Statements in another order -/

theorem Statement.eq_of_table? {x : Statement} {t : Table} (h : x.table? = some t) :
    x = .createTable t := by
  cases x with
  | createTable u => cases h; rfl
  | databaseReference name => cases h
  | ignored => cases h

/-- Two statements do not define tables of the same name. -/
def Statement.Apart (x y : Statement) : Prop :=
  ∀ t u, x.table? = some t → y.table? = some u → t.name ≠ u.name

/-- The same statements in an order in which the tables of each name stand as before, with more or
fewer statements that define no table. -/
inductive Rearranged : List Statement → List Statement → Prop
  | refl (l : List Statement) : Rearranged l l
  | cons (x : Statement) {l l' : List Statement} : Rearranged l l' → Rearranged (x :: l) (x :: l')
  | exchange {x y : Statement} (l : List Statement) : x.Apart y →
      Rearranged (x :: y :: l) (y :: x :: l)
  | insert {x : Statement} (l : List Statement) : x.table? = none → Rearranged l (x :: l)
  | remove {x : Statement} (l : List Statement) : x.table? = none → Rearranged (x :: l) l
  | trans {l m r : List Statement} : Rearranged l m → Rearranged m r → Rearranged l r

/-- The tables that statements define under a name, in order. -/
def tablesNamed (name : Text) (l : List Statement) : List Table :=
  (l.filterMap Statement.table?).filter fun t => t.name = name

theorem tablesNamed_append (name : Text) (l l' : List Statement) :
    tablesNamed name (l ++ l') = tablesNamed name l ++ tablesNamed name l' := by
  rw [tablesNamed, List.filterMap_append, List.filter_append]
  rfl

theorem tablesNamed_cons_of_none {x : Statement} (h : x.table? = none) (name : Text)
    (l : List Statement) : tablesNamed name (x :: l) = tablesNamed name l := by
  rw [tablesNamed, List.filterMap_cons_none h]
  rfl

theorem tablesNamed_cons_of_some {x : Statement} {t : Table} (h : x.table? = some t) (name : Text)
    (l : List Statement) :
    tablesNamed name (x :: l) =
      if t.name = name then t :: tablesNamed name l else tablesNamed name l := by
  rw [tablesNamed, List.filterMap_cons_some h, List.filter_cons]
  simp only [decide_eq_true_eq]
  rfl

/-- One step of a rearrangement keeps the tables of each name, and so does the whole. -/
theorem Rearranged.tablesNamed_eq {l l' : List Statement} (h : Rearranged l l') (name : Text) :
    tablesNamed name l = tablesNamed name l' := by
  induction h with
  | refl l => rfl
  | cons x _ ih =>
      rw [← List.singleton_append, tablesNamed_append, ih, ← tablesNamed_append,
        List.singleton_append]
  | @exchange x y l hapart =>
      cases hx : x.table? with
      | none => rw [tablesNamed_cons_of_none hx, ← List.singleton_append, tablesNamed_append,
          ← tablesNamed_cons_of_none hx name l, ← tablesNamed_append, List.singleton_append]
      | some t =>
          cases hy : y.table? with
          | none => rw [tablesNamed_cons_of_some hx, tablesNamed_cons_of_none hy,
              tablesNamed_cons_of_none hy, tablesNamed_cons_of_some hx]
          | some u =>
              have hne := hapart t u hx hy
              rw [tablesNamed_cons_of_some hx, tablesNamed_cons_of_some hy,
                tablesNamed_cons_of_some hy, tablesNamed_cons_of_some hx]
              by_cases ht : t.name = name
              · have hu : u.name ≠ name := fun hu => hne (ht.trans hu.symm)
                simp [ht, hu]
              · simp [ht]
  | insert l h => exact (tablesNamed_cons_of_none h name l).symm
  | remove l h => exact tablesNamed_cons_of_none h name l
  | trans _ _ ih ih' => exact ih.trans ih'

/-- A statement goes to the front, past statements that define no table of its name. -/
theorem rearranged_middle {x : Statement} {front : List Statement} (h : ∀ y ∈ front, x.Apart y)
    (back : List Statement) : Rearranged (x :: (front ++ back)) (front ++ x :: back) := by
  induction front with
  | nil => exact .refl _
  | cons y front ih =>
      have hstep : Rearranged (x :: y :: (front ++ back)) (y :: x :: (front ++ back)) :=
        .exchange _ (h y List.mem_cons_self)
      exact hstep.trans (.cons y (ih fun z hz => h z (List.mem_cons_of_mem y hz)))

/-- Where a table is the first one of its name, no statement in front of it defines one. -/
theorem exists_first_of_tablesNamed {l : List Statement} {t : Table} {ts : List Table}
    (h : tablesNamed t.name l = t :: ts) :
    ∃ front back, l = front ++ .createTable t :: back ∧
      ∀ y ∈ front, (Statement.createTable t).Apart y := by
  induction l with
  | nil => cases h
  | cons x l ih =>
      cases hx : x.table? with
      | none =>
          rw [tablesNamed_cons_of_none hx] at h
          obtain ⟨front, back, rfl, hfront⟩ := ih h
          refine ⟨x :: front, back, rfl, fun y hy => ?_⟩
          rcases List.mem_cons.1 hy with rfl | hy
          · intro t' u _ hu
            rw [hx] at hu
            cases hu
          · exact hfront y hy
      | some u =>
          obtain rfl := Statement.eq_of_table? hx
          rw [tablesNamed_cons_of_some hx] at h
          by_cases hu : u.name = t.name
          · rw [if_pos hu, List.cons.injEq] at h
            obtain rfl := h.1
            exact ⟨[], l, rfl, fun y hy => by cases hy⟩
          · rw [if_neg hu] at h
            obtain ⟨front, back, rfl, hfront⟩ := ih h
            refine ⟨.createTable u :: front, back, rfl, fun y hy => ?_⟩
            rcases List.mem_cons.1 hy with rfl | hy
            · intro t' u' ht' hu'
              cases ht'
              cases hu'
              exact Ne.symm hu
            · exact hfront y hy

/-- **Statements are rearranged exactly when they define the same tables in the same order under
each name.** -/
theorem rearranged_iff {l l' : List Statement} :
    Rearranged l l' ↔ ∀ name, tablesNamed name l = tablesNamed name l' := by
  refine ⟨Rearranged.tablesNamed_eq, fun h => ?_⟩
  induction l generalizing l' with
  | nil =>
      -- what is left defines no table at all
      induction l' with
      | nil => exact .refl _
      | cons y l' ih =>
          cases hy : y.table? with
          | none =>
              refine (ih fun name => ?_).trans (.insert l' hy)
              rw [h name, tablesNamed_cons_of_none hy]
          | some t =>
              have ht := h t.name
              rw [tablesNamed_cons_of_some hy, if_pos rfl] at ht
              cases ht
  | cons x l ih =>
      cases hx : x.table? with
      | none =>
          refine Rearranged.trans (.remove l hx) (ih fun name => ?_)
          rw [← h name, tablesNamed_cons_of_none hx]
      | some t =>
          obtain rfl := Statement.eq_of_table? hx
          -- the table is the first one of its name on the other side as well
          have ht := h t.name
          rw [tablesNamed_cons_of_some hx, if_pos rfl] at ht
          obtain ⟨front, back, rfl, hfront⟩ := exists_first_of_tablesNamed ht.symm
          refine Rearranged.trans (.cons _ (ih fun name => ?_)) (rearranged_middle hfront back)
          have hname := (h name).trans ((rearranged_middle hfront back).tablesNamed_eq name).symm
          rw [tablesNamed_cons_of_some hx, tablesNamed_cons_of_some hx] at hname
          by_cases hn : t.name = name
          · rw [if_pos hn, if_pos hn, List.cons.injEq] at hname
            exact hname.2
          · rwa [if_neg hn, if_neg hn] at hname

/-! ### Tables in any order -/

namespace Schema

variable {s s' : Schema}

/-- A list has the last table of each name of the schema once, in any order. -/
structure Enumerates (s : Schema) (entries : List (Text × Table)) : Prop where
  /-- No name occurs twice. -/
  nodup : (entries.map Prod.fst).Nodup
  /-- An entry is a name with the last table of that name. -/
  mem_iff : ∀ name t, (name, t) ∈ entries ↔ s.table? name = some t

/-- The map of the tables by their names is such a list. -/
theorem enumerates_tablesByName (s : Schema) : s.Enumerates s.tablesByName where
  nodup := by
    rw [tablesByName, map_fst_lastByName]
    exact nodup_sortedNames _
  mem_iff _ _ := mem_lastByName

theorem table?_of_rearranged (h : Rearranged s.statements s'.statements) (name : Text) :
    s'.table? name = s.table? name := by
  have hname : tablesNamed name s'.statements = tablesNamed name s.statements :=
    (h.tablesNamed_eq name).symm
  rw [table?, table?, lastNamed?_eq_getLast?, lastNamed?_eq_getLast?]
  exact congrArg List.getLast? hname

theorem hasTable_of_rearranged (h : Rearranged s.statements s'.statements) (name : Text) :
    s'.hasTable name = s.hasTable name := by
  rw [hasTable, hasTable, table?_of_rearranged h]

/-- A rearranged schema has the same tables as often. -/
theorem perm_tables_of_rearranged (h : Rearranged s.statements s'.statements) :
    s'.tables.Perm s.tables := by
  refine List.perm_iff_count.2 fun t => ?_
  have hcount : ∀ l : List Statement,
      (l.filterMap Statement.table?).count t = (tablesNamed t.name l).count t := fun l =>
    (List.count_filter (by simp)).symm
  rw [tables, tables, hcount, hcount, h.tablesNamed_eq]

theorem alteration?_eq_some_iff {before : Schema} {o : Options} {entry : Text × Table}
    {e : Text × List Clause} :
    before.alteration? o entry = some e ↔
      ∃ b, before.table? entry.1 = some b ∧ b.clausesTo entry.2 o ≠ [] ∧
        (entry.1, b.clausesTo entry.2 o) = e := by
  rw [alteration?]
  cases before.table? entry.1 with
  | none => simp
  | some b => cases hcs : b.clausesTo entry.2 o <;> simp [hcs]

/-- Which tables are altered, and how, when the tables are gone through in any order. -/
theorem mem_filterMap_alteration? {before after : Schema} {o : Options}
    {entries : List (Text × Table)} (h : after.Enumerates entries) {name : Text}
    {cs : List Clause} :
    (name, cs) ∈ entries.filterMap (before.alteration? o) ↔
      before.clausesAt? after o name = some cs := by
  rw [List.mem_filterMap, clausesAt?_eq_some_iff]
  constructor
  · rintro ⟨⟨n, a⟩, hmem, he⟩
    obtain ⟨b, hb, hne, heq⟩ := alteration?_eq_some_iff.1 he
    cases heq
    exact ⟨b, a, hb, (h.mem_iff _ _).1 hmem, rfl, hne⟩
  · rintro ⟨b, a, hb, ha, rfl, hne⟩
    exact ⟨(name, a), (h.mem_iff _ _).2 ha, alteration?_eq_some_iff.2 ⟨b, hb, hne, rfl⟩⟩

end Schema

namespace Delta

/-- **The order in which the tables are gone through makes no difference.** -/
theorem ofParts_of_enumerates {before after : Schema} (o : Options) {entries : List (Text × Table)}
    (h : after.Enumerates entries) :
    ofParts (between before after o).creates (entries.filterMap (before.alteration? o))
      (between before after o).drops = between before after o := by
  have hkeys : ((entries.filterMap (before.alteration? o)).map Prod.fst).Nodup := by
    rw [List.map_filterMap]
    refine List.Pairwise.filterMap _ ?_ (List.pairwise_map.1 h.nodup)
    intro x y hne n hn m hm
    obtain ⟨e, he, rfl⟩ := Option.map_eq_some_iff.1 hn
    obtain ⟨e', he', rfl⟩ := Option.map_eq_some_iff.1 hm
    obtain ⟨-, -, -, rfl⟩ := Schema.alteration?_eq_some_iff.1 he
    obtain ⟨-, -, -, rfl⟩ := Schema.alteration?_eq_some_iff.1 he'
    exact hne
  have halters : (lastByName Prod.fst (entries.filterMap (before.alteration? o))).map Prod.snd =
      (between before after o).alters := by
    refine eq_of_ascending Prod.fst (pairwise_lastByName _ _)
      (pairwise_alters_between before after o) fun e => ?_
    rw [mem_lastByName_of_nodup hkeys, Schema.mem_filterMap_alteration? h, ← mem_alters_between]
  rw [ofParts, halters]

variable {before before' after after' : Schema}

/-- Rearranged schemas give the same alterations. -/
theorem alters_of_rearranged (hb : Rearranged before.statements before'.statements)
    (ha : Rearranged after.statements after'.statements) (o : Options) :
    (between before' after' o).alters = (between before after o).alters := by
  refine eq_of_ascending Prod.fst (pairwise_alters_between before' after' o)
    (pairwise_alters_between before after o) fun e => ?_
  obtain ⟨name, cs⟩ := e
  rw [mem_alters_between, mem_alters_between, Schema.clausesAt?, Schema.clausesAt?,
    Schema.table?_of_rearranged hb, Schema.table?_of_rearranged ha]

/-- **The order of the statements makes no difference to a delta**, nor do statements that define no
table, nor does the order in which the tables of the later schema are gone through: the tables are
altered in the same way, and the same ones are created and dropped, in the order of their source. -/
theorem between_of_rearranged (hb : Rearranged before.statements before'.statements)
    (ha : Rearranged after.statements after'.statements) (o : Options)
    {entries : List (Text × Table)} (hentries : after'.Enumerates entries) :
    let d := between before after o
    let d' := between before' after' o
    d'.alters = d.alters ∧ (d'.creates.Perm d.creates ∧ d'.creates.Sublist after'.tables) ∧
      (d'.drops.Perm d.drops ∧ d'.drops.Sublist before'.tableNames) ∧
      ofParts d'.creates (entries.filterMap (before'.alteration? o)) d'.drops = d' := by
  intro d d'
  refine ⟨alters_of_rearranged hb ha o, ⟨?_, List.filter_sublist⟩, ⟨?_, List.filter_sublist⟩,
    ofParts_of_enumerates o hentries⟩
  · have hnew : ∀ t : Table, before'.hasTable t.name = before.hasTable t.name := fun t =>
      Schema.hasTable_of_rearranged hb t.name
    change (after'.tables.filter fun t => !before'.hasTable t.name).Perm
      (after.tables.filter fun t => !before.hasTable t.name)
    simp only [hnew]
    exact (Schema.perm_tables_of_rearranged ha).filter _
  · have hgone : ∀ name, after'.hasTable name = after.hasTable name :=
      Schema.hasTable_of_rearranged ha
    change (before'.tableNames.filter fun name => !after'.hasTable name).Perm
      (before.tableNames.filter fun name => !after.hasTable name)
    simp only [hgone]
    exact ((Schema.perm_tables_of_rearranged hb).map Table.name).filter _

/-- A table that is defined twice, between tables that change places around it and a database that
is no longer referred to. -/
theorem between_of_rearranged_twice :
    let column : Text → Field := fun name => ⟨name, "int".toList, [], []⟩
    let table : Text → List Text → Statement := fun name columns =>
      .createTable ⟨name, columns.map column, []⟩
    let before : Schema := ⟨[table ['t'] [['a']], table ['g'] []]⟩
    let after : Schema := ⟨[table ['t'] [], .databaseReference ['d'], table ['n'] [],
      table ['t'] [['a'], ['b']]]⟩
    let after' : Schema := ⟨[table ['n'] [], table ['t'] [], table ['t'] [['a'], ['b']], .ignored]⟩
    (between before after' .skipUnchanged).alters = [(['t'], [.addField (column ['b'])])] ∧
      Rearranged after.statements after'.statements ∧
      (between before after' .skipUnchanged).alters = (between before after .skipUnchanged).alters := by
  intro column table before after after'
  have hafter : Rearranged after.statements after'.statements := by
    have hapart : (table ['t'] []).Apart (table ['n'] []) := fun t u ht hu => by
      cases ht
      cases hu
      decide
    exact .trans (.cons _ (.remove _ rfl)) (.trans (.exchange _ hapart)
      (.cons _ (.cons _ (.cons _ (.insert [] rfl)))))
  have hentries : after'.Enumerates after'.tablesByName := after'.enumerates_tablesByName
  exact ⟨by decide, hafter,
    (between_of_rearranged (.refl before.statements) hafter .skipUnchanged hentries).1⟩

end Delta

end SchemaDelta
