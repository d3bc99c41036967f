/-
**The delta from a schema to itself.**

Nothing is created or dropped between a schema and itself, and of a table that it defines only
columns are altered.  Passing over unchanged columns should leave nothing of that, and it does where
columns of one name have the same definition.  Where a table gives a name to two columns that differ,
the comparison goes over both of them on the later side and looks up the last one on the earlier side,
so that the other one seems to have changed.

Tables are not affected by this: of a name that is given to several tables only the last one is
compared, on either side.

Main definitions:

* `SchemaDelta.Table.Coherent` — columns of one name have the same definition.

Main results:

* `SchemaDelta.Table.clausesTo_self` — the clauses between a table and itself alter its columns;
* `SchemaDelta.Table.clausesTo_self_eq_nil_iff` — they can all be passed over in a coherent table;
* `SchemaDelta.Delta.isEmpty_between_self_iff` — when there is nothing to do between a schema and
  itself;
* `SchemaDelta.Delta.between_self` — **what a delta from a schema to itself does**: nothing but alter
  columns, and nothing at all where those of one name agree;
* `SchemaDelta.Delta.exists_not_isEmpty_between_self` — a table with two columns of one name differs
  from itself.
-/

import SchemaDelta.Proofs.Equivalence
import SchemaDelta.Proofs.Reading
import SchemaDelta.Proofs.Restatement

set_option relaxedAutoImplicit false
set_option autoImplicit false

namespace SchemaDelta

/-! ### A table and itself -/

/-- Columns to which the table gives the same name have the same definition. -/
def Table.Coherent (t : Table) : Prop :=
  ∀ f ∈ t.fields, ∀ g ∈ t.fields, f.name = g.name → f.sameDefinition g = true

instance (t : Table) : Decidable t.Coherent :=
  inferInstanceAs (Decidable (∀ f ∈ t.fields, ∀ g ∈ t.fields, f.name = g.name →
    f.sameDefinition g = true))

namespace Table

variable {t : Table}

theorem DistinctColumns.coherent (h : t.DistinctColumns) : t.Coherent := by
  intro f hf g hg hname
  obtain rfl := eq_of_nameOf_eq h hf hg hname
  exact Field.sameDefinition_refl f

/-- The last column of each name has the definition of all columns of that name when the table is
coherent, and only then. -/
theorem restates_fields_iff : (∀ f ∈ t.fields, t.restates (.alterField f) = true) ↔ t.Coherent := by
  constructor
  · intro h f hf g hg hname
    obtain ⟨last, hlast, hfirst⟩ := restates_alterField_iff.1 (h f hf)
    obtain ⟨last', hlast', hsecond⟩ := restates_alterField_iff.1 (h g hg)
    rw [← hname, hlast, Option.some.injEq] at hlast'
    subst hlast'
    exact Field.sameDefinition_trans (Field.sameDefinition_symm hfirst) hsecond
  · intro h f hf
    obtain ⟨last, hlast⟩ := Option.isSome_iff_exists.1 (field?_isSome_iff.2 ⟨f, hf, rfl⟩)
    obtain ⟨hmem, hname⟩ := mem_and_name_of_lastNamed? hlast
    exact restates_alterField_iff.2 ⟨last, hlast, h last hmem f hf hname⟩

/-- Every column is one that both tables have. -/
theorem alteredFields_self (t : Table) : alteredFields t t {} = t.fields := by
  rw [alteredFields, List.filter_eq_self]
  intro f hf
  obtain ⟨last, hlast⟩ := Option.isSome_iff_exists.1 (field?_isSome_iff.2 ⟨f, hf, rfl⟩)
  rw [hlast]
  rfl

/-- **The clauses between a table and itself alter its columns**: all of them, or those that do not
have the definition of the last column of their name. -/
theorem clausesTo_self (t : Table) :
    t.clausesTo t {} = t.fields.map .alterField ∧
      t.clausesTo t .skipUnchanged =
        (t.fields.filter fun f => !t.restates (.alterField f)).map .alterField := by
  have hadded : addedFields t t = [] := addedFields_eq_nil_iff.2 fun f hf => ⟨f, hf, rfl⟩
  have hdropped : droppedFields t t = [] := droppedFields_eq_nil_iff.2 fun f hf => ⟨f, hf, rfl⟩
  obtain ⟨hgone, hnew⟩ := changedIndices_eq_nil_iff (b := t) (a := t).2 fun _ => Iff.rfl
  have hwhole : t.clausesTo t {} = t.fields.map .alterField := by
    simp [clausesTo, hadded, hdropped, hgone, hnew, alteredFields_self]
  refine ⟨hwhole, ?_⟩
  rw [clausesTo_skipUnchanged, hwhole, List.filter_map]
  rfl

/-- They can all be passed over exactly in a coherent table. -/
theorem clausesTo_self_eq_nil_iff : t.clausesTo t .skipUnchanged = [] ↔ t.Coherent := by
  rw [(clausesTo_self t).2, List.map_eq_nil_iff, List.filter_eq_nil_iff, ← restates_fields_iff]
  simp

end Table

/-! ### A schema and itself -/

namespace Delta

variable {s : Schema}

theorem creates_between_self (s : Schema) (o : Options) : (between s s o).creates = [] :=
  creates_eq_nil_iff.2 fun _ => id

theorem drops_between_self (s : Schema) (o : Options) : (between s s o).drops = [] :=
  drops_eq_nil_iff.2 fun _ => id

/-- With unchanged columns passed over there is nothing to do when the last table of each name is
coherent, and only then. -/
theorem isEmpty_between_self_iff : (between s s .skipUnchanged).isEmpty = true ↔
    ∀ name t, s.table? name = some t → t.Coherent := by
  rw [isEmpty_iff, and_iff_right (creates_between_self s _), and_iff_left (drops_between_self s _),
    alters_eq_nil_iff]
  constructor
  · intro h name t ht
    exact Table.clausesTo_self_eq_nil_iff.1 (h name t t ht ht)
  · intro h name b a hb ha
    obtain rfl := Option.some.inj (hb.symm.trans ha)
    exact Table.clausesTo_self_eq_nil_iff.2 (h name b hb)

theorem isEmpty_between_self_of_distinct (h : s.DistinctColumns) :
    (between s s .skipUnchanged).isEmpty = true :=
  isEmpty_between_self_iff.2 fun _ t ht => (h t (Schema.mem_tables_of_table? ht)).coherent

/-- The alterations between a schema and itself are those between the last table of a name and
itself. -/
theorem exists_of_mem_alters_self {o : Options} {name : Text} {cs : List Clause}
    (h : (name, cs) ∈ (between s s o).alters) :
    ∃ t, s.table? name = some t ∧ cs = t.clausesTo t o := by
  obtain ⟨b, a, hb, ha, rfl, -⟩ := Schema.clausesAt?_eq_some_iff.1 (mem_alters_between.1 h)
  obtain rfl := Option.some.inj (hb.symm.trans ha)
  exact ⟨b, hb, rfl⟩

/-- **What a delta from a schema to itself does.**  It creates and drops nothing and only alters
columns: all columns of the last table of each name, or with unchanged ones passed over those that do
not have the definition of the last column of their name.  So it does nothing at all exactly when in
these tables the columns of one name have the same definition. -/
theorem between_self (s : Schema) :
    ((between s s .skipUnchanged).isEmpty = true ↔
        ∀ name t, s.table? name = some t → t.Coherent) ∧
      (∀ o, (between s s o).creates = [] ∧ (between s s o).drops = []) ∧
      (∀ name cs, (name, cs) ∈ (between s s {}).alters →
        ∃ t, s.table? name = some t ∧ cs = t.fields.map .alterField) ∧
      ∀ name cs, (name, cs) ∈ (between s s .skipUnchanged).alters →
        ∃ t, s.table? name = some t ∧
          cs = (t.fields.filter fun f => !t.restates (.alterField f)).map .alterField := by
  refine ⟨isEmpty_between_self_iff, fun o => ⟨creates_between_self s o, drops_between_self s o⟩,
    fun name cs hmem => ?_, fun name cs hmem => ?_⟩
  · obtain ⟨t, ht, rfl⟩ := exists_of_mem_alters_self hmem
    exact ⟨t, ht, (Table.clausesTo_self t).1⟩
  · obtain ⟨t, ht, rfl⟩ := exists_of_mem_alters_self hmem
    exact ⟨t, ht, (Table.clausesTo_self t).2⟩

/-- A table is defined twice, and its last definition repeats a column and an index. -/
theorem between_self_repeated :
    let column : Text → List Qualifier → Field := fun type qs => ⟨['a'], type, [], qs⟩
    let first : Table := ⟨['t'], [column "int".toList [], column "text".toList []], []⟩
    let last : Table := ⟨['t'], [column "int".toList [.primaryKey], column "int".toList []],
      [.primaryOn ['a']]⟩
    let s : Schema := ⟨[.createTable first, .createTable last]⟩
    ¬ first.Coherent ∧ last.Coherent ∧ (between s s .skipUnchanged).isEmpty = true := by
  intro column first last s
  have hlast : last.Coherent := by decide
  refine ⟨by decide, hlast, (between_self s).1.2 fun name t ht => ?_⟩
  obtain ⟨hmem, rfl⟩ := mem_and_name_of_lastNamed? ht
  have hname : t.name = ['t'] := by
    rcases List.mem_cons.1 hmem with rfl | hmem
    · rfl
    · exact List.mem_singleton.1 hmem ▸ rfl
  rw [hname] at ht
  cases ht
  exact hlast

/-- A column that is written twice, each time with another type, differs from itself. -/
theorem exists_not_isEmpty_between_self :
    ∃ s, Schema.read "CREATE TABLE t (a INT, a TEXT);".toList .mysql = .ok s ∧
      (between s s .skipUnchanged).isEmpty = false ∧
      (between s s .skipUnchanged).clausesFor ['t'] =
        [.alterField ⟨['a'], "int".toList, [], []⟩] := by
  have hread : Schema.read "CREATE TABLE t (a INT, a TEXT);".toList .mysql =
      .ok ⟨[.createTable ⟨['t'], [⟨['a'], "int".toList, [], []⟩, ⟨['a'], "text".toList, [], []⟩],
        []⟩]⟩ :=
    Schema.read_of_toOption (by decide +kernel)
  exact ⟨_, hread, by decide, by decide⟩

end Delta

end SchemaDelta
