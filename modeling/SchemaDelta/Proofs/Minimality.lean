/-
**No operation of a delta can be left out.**

When unchanged columns are passed over, a delta holds nothing superfluous: a delta that lacks one of
its operations leads to something else than the later schema.  The reason is that no two operations
are about the same thing, so that what one of them leaves undone no other one makes up for.  Tables
are told apart by their names; within a table, clauses are told apart by their subjects, and what a
clause is about is not yet as the later table has it.

For this, nothing may be defined twice: of two tables, two columns or two indices that are the same,
one is written or removed in vain.

Main definitions:

* `SchemaDelta.Schema.Plain` — nothing is defined twice in a schema;
* `SchemaDelta.Delta.Lacks` — a delta without one of its operations.

Main results:

* `SchemaDelta.Relation.not_representsAt_of_mem` — what a clause is about differs from the later
  table;
* `SchemaDelta.Relation.not_represents_of_lacks` — clauses without one of them do not lead to it;
* `SchemaDelta.Database.represents_apply_and_not_of_lacks` — **a delta leads to the later schema, and
  no delta that lacks one of its operations does**.
-/

import SchemaDelta.Proofs.Subject

set_option relaxedAutoImplicit false
set_option autoImplicit false

namespace SchemaDelta

/-- Nothing is defined twice: neither a table of the schema, nor a column or an index of a table. -/
structure Schema.Plain (s : Schema) : Prop where
  /-- No name is given to two tables. -/
  tables : s.tableNames.Nodup
  /-- No table gives a name to two columns. -/
  columns : s.DistinctColumns
  /-- No index of a table occurs twice. -/
  indices : ∀ t ∈ s.tables, t.DistinctIndices

instance (s : Schema) : Decidable s.Plain :=
  decidable_of_iff (s.tableNames.Nodup ∧ s.DistinctColumns ∧ ∀ t ∈ s.tables, t.DistinctIndices)
    ⟨fun h => ⟨h.1, h.2.1, h.2.2⟩, fun h => ⟨h.tables, h.columns, h.indices⟩⟩

namespace Delta

/-- A delta and what is left of it without one create, one drop or one clause.  Where a clause is
the only one of its table, the alteration may stay without clauses or go as well. -/
inductive Lacks : Delta → Delta → Prop
  | create (front : List Table) (t : Table) (back : List Table)
      (alters : List (Text × List Clause)) (drops : List Text) :
      Lacks ⟨front ++ t :: back, alters, drops⟩ ⟨front ++ back, alters, drops⟩
  | drop (creates : List Table) (alters : List (Text × List Clause)) (front : List Text)
      (name : Text) (back : List Text) :
      Lacks ⟨creates, alters, front ++ name :: back⟩ ⟨creates, alters, front ++ back⟩
  | clause (creates : List Table) (front : List (Text × List Clause)) (name : Text)
      (cs : List Clause) (c : Clause) (ds : List Clause) (back : List (Text × List Clause))
      (drops : List Text) :
      Lacks ⟨creates, front ++ (name, cs ++ c :: ds) :: back, drops⟩
        ⟨creates, front ++ (name, cs ++ ds) :: back, drops⟩
  | alteration (creates : List Table) (front : List (Text × List Clause)) (name : Text)
      (c : Clause) (back : List (Text × List Clause)) (drops : List Text) :
      Lacks ⟨creates, front ++ (name, [c]) :: back, drops⟩ ⟨creates, front ++ back, drops⟩

end Delta

/-! ### Within a table -/

namespace Relation

variable {r : Relation} {b a : Table} {c : Clause} {cs ds : List Clause}

/-- An added column is not there yet. -/
theorem not_representsAt_addField (ha : a.DistinctColumns) (h : r.Represents b) {f : Field}
    (hf : f ∈ b.addedFields a) : ¬ r.RepresentsAt a (.column f.name) := by
  obtain ⟨hmem, hnew⟩ := List.mem_filter.1 hf
  have hlater : a.field? f.name = some f := lastNamed?_of_mem_of_nodup ha hmem
  rw [RepresentsAt, columns_eq_none_of_represents h (Option.isNone_iff_eq_none.1 hnew), hlater]
  exact Option.not_rel_none_some

/-- A dropped column is still there. -/
theorem not_representsAt_dropField (h : r.Represents b) {name : Text}
    (hname : name ∈ b.droppedFields a) : ¬ r.RepresentsAt a (.column name) := by
  obtain ⟨hsome, hnone⟩ := Table.mem_droppedFields.1 hname
  obtain ⟨previous, hb⟩ := Option.isSome_iff_exists.1 hsome
  obtain ⟨g, hr, -⟩ := exists_column_of_represents h hb
  rw [RepresentsAt, hr, hnone]
  exact Option.not_rel_some_none

/-- An altered column is there with another definition. -/
theorem not_representsAt_alterField (ha : a.DistinctColumns) (h : r.Represents b) {f : Field}
    (hf : f ∈ b.alteredFields a .skipUnchanged) : ¬ r.RepresentsAt a (.column f.name) := by
  obtain ⟨hmem, hchanged⟩ := List.mem_filter.1 hf
  have hlater : a.field? f.name = some f := lastNamed?_of_mem_of_nodup ha hmem
  cases hb : b.field? f.name with
  | none => rw [hb] at hchanged; cases hchanged
  | some previous =>
      obtain ⟨g, hr, hgp⟩ := exists_column_of_represents h hb
      rw [RepresentsAt, hr, hlater, Option.rel_some_some]
      intro hgf
      have hpg := Field.sameDefinition_symm (Field.identical_iff.1 hgp).2
      have hpf := Field.sameDefinition_trans hpg (Field.identical_iff.1 hgf).2
      simp [hb, Options.skipUnchanged, hpf] at hchanged

/-- A dropped index is still there. -/
theorem not_representsAt_dropIndex (h : r.Represents b) {i : Index} (hi : i ∈ b.droppedIndices a) :
    ¬ r.RepresentsAt a (.index i) := by
  obtain ⟨hmem, hgone⟩ := List.mem_filter.1 hi
  intro hat
  have hlater : i ∈ a.indices := hat.1 ((h.indices i).2 hmem)
  simp [hlater] at hgone

/-- An added index is not there yet. -/
theorem not_representsAt_addIndex (h : r.Represents b) {i : Index} (hi : i ∈ b.addedIndices a) :
    ¬ r.RepresentsAt a (.index i) := by
  obtain ⟨hmem, hnew⟩ := List.mem_filter.1 hi
  intro hat
  have hearlier : i ∈ b.indices := (h.indices i).1 (hat.2 hmem)
  simp [hearlier] at hnew

/-- What a clause is about is not yet as the later table has it. -/
theorem not_representsAt_of_mem (ha : a.DistinctColumns) (h : r.Represents b)
    (hc : c ∈ b.clausesTo a .skipUnchanged) : ¬ r.RepresentsAt a c.subject := by
  simp only [Table.clausesTo, List.mem_append, List.mem_map] at hc
  rcases hc with (((⟨f, hf, rfl⟩ | ⟨name, hname, rfl⟩) | ⟨f, hf, rfl⟩) | ⟨i, hi, rfl⟩) |
    ⟨i, hi, rfl⟩
  · exact not_representsAt_addField ha h hf
  · exact not_representsAt_dropField h hname
  · exact not_representsAt_alterField ha h hf
  · exact not_representsAt_dropIndex h hi
  · exact not_representsAt_addIndex h hi

/-- **The clauses between two tables without one of them do not lead from the one to the other.** -/
theorem not_represents_of_lacks (hb : b.DistinctColumns) (ha : a.DistinctColumns)
    (hbi : b.DistinctIndices) (hai : a.DistinctIndices) (h : r.Represents b)
    (hcs : b.clausesTo a .skipUnchanged = cs ++ c :: ds) :
    ¬ (r.applyAll (cs ++ ds)).Represents a := by
  intro hafter
  have hnodup := Table.nodup_subject_clausesTo hb ha hbi hai .skipUnchanged
  rw [hcs] at hnodup
  -- the other clauses are about other things, so they leave the subject of this one alone
  have hothers : ∀ d ∈ cs ++ ds, d.subject ≠ c.subject := by
    have hperm : ((cs ++ c :: ds).map Clause.subject).Perm ((c :: (cs ++ ds)).map Clause.subject) :=
      List.perm_middle.map _
    have hhead := (List.nodup_cons.1 (hperm.nodup_iff.1 hnodup)).1
    exact fun d hd heq => hhead (heq ▸ List.mem_map_of_mem hd)
  have hmem : c ∈ b.clausesTo a .skipUnchanged := by simp [hcs]
  exact not_representsAt_of_mem ha h hmem
    ((representsAt_applyAll hothers).1 (represents_iff.1 hafter c.subject))

end Relation

/-! ### Within a database -/

namespace Database

variable {db : Database} {before after : Schema} {o : Options} {d' : Delta}

/-- A table that is not created is missing. -/
theorem not_represents_of_create {front back : List Table} {t : Table}
    (hafter : after.tableNames.Nodup) (h : db.Represents before)
    (hcreates : (Delta.between before after o).creates = front ++ t :: back)
    (hcreates' : d'.creates = front ++ back) (halters : (d'.alters.map Prod.fst).Nodup) :
    ¬ (db.apply d').Represents after := by
  intro hrep
  obtain ⟨hmem, hnew⟩ : t ∈ after.tables ∧ before.hasTable t.name = false := by
    have ht : t ∈ (Delta.between before after o).creates := by simp [hcreates]
    simpa using List.mem_filter.1 ht
  -- no other table of its name is created
  have hnone : lastNamed? Table.name t.name d'.creates = none := by
    have hnodup : ((Delta.between before after o).creates.map Table.name).Nodup :=
      List.Nodup.sublist (List.filter_sublist.map Table.name) hafter
    rw [hcreates, (List.perm_middle.map Table.name).nodup_iff, List.map_cons] at hnodup
    rw [hcreates']
    refine lastNamed?_eq_none_iff.2 fun u hu hn => (List.nodup_cons.1 hnodup).1 ?_
    exact hn ▸ List.mem_map_of_mem hu
  have hmissing : db t.name = none :=
    eq_none_of_represents h (by simpa [Schema.hasTable] using hnew)
  have hname := hrep t.name
  rw [apply_apply db halters, hnone, hmissing] at hname
  have hlater : after.table? t.name = some t := lastNamed?_of_mem_of_nodup hafter hmem
  rw [hlater] at hname
  split at hname <;> cases hname

/-- A table that is not dropped stays. -/
theorem not_represents_of_drop {front back : List Text} {name : Text}
    (hbefore : before.tableNames.Nodup) (h : db.Represents before)
    (hdrops : (Delta.between before after o).drops = front ++ name :: back)
    (hdrops' : d'.drops = front ++ back) (halters : (d'.alters.map Prod.fst).Nodup) :
    ¬ (db.apply d').Represents after := by
  intro hrep
  obtain ⟨hmem, hgone⟩ : name ∈ before.tableNames ∧ after.hasTable name = false := by
    have hname : name ∈ (Delta.between before after o).drops := by simp [hdrops]
    simpa using List.mem_filter.1 hname
  -- the name is not dropped a second time
  have hkept : name ∉ d'.drops := by
    have hnodup : (Delta.between before after o).drops.Nodup := hbefore.filter _
    rw [hdrops, List.perm_middle.nodup_iff] at hnodup
    rw [hdrops']
    exact (List.nodup_cons.1 hnodup).1
  obtain ⟨b, hb⟩ := Option.isSome_iff_exists.1 (Schema.hasTable_iff.2 hmem)
  obtain ⟨r, hr, -⟩ := exists_relation_of_represents h hb
  have hname := hrep name
  have hlater : after.table? name = none := by simpa [Schema.hasTable] using hgone
  rw [apply_apply db halters, if_neg hkept, hr, hlater] at hname
  cases hcreated : lastNamed? Table.name name d'.creates with
  | none => rw [hcreated] at hname; cases hname
  | some t => rw [hcreated] at hname; cases hname

/-- A table for which a clause is missing is not altered as it should be. -/
theorem not_represents_of_clause {name : Text} {cs ds : List Clause} {c : Clause}
    (hbefore : before.Plain) (hafter : after.Plain) (h : db.Represents before)
    (hcs : (name, cs ++ c :: ds) ∈ (Delta.between before after .skipUnchanged).alters)
    (hcs' : d'.clausesFor name = cs ++ ds)
    (hcreates : d'.creates = (Delta.between before after .skipUnchanged).creates)
    (hdrops : d'.drops = (Delta.between before after .skipUnchanged).drops)
    (halters : (d'.alters.map Prod.fst).Nodup) : ¬ (db.apply d').Represents after := by
  intro hrep
  obtain ⟨b, a, hb, ha, hclauses, -⟩ :=
    Schema.clausesAt?_eq_some_iff.1 (Delta.mem_alters_between.1 hcs)
  have hbmem := Schema.mem_tables_of_table? hb
  have hamem := Schema.mem_tables_of_table? ha
  obtain ⟨r, hr, hrb⟩ := exists_relation_of_represents h hb
  -- both schemas have the table, so it is neither created nor dropped
  have hnone : lastNamed? Table.name name d'.creates = none := by
    rw [hcreates]
    refine lastNamed?_eq_none_iff.2 fun t ht hn => ?_
    have hnew := (List.mem_filter.1 ht).2
    rw [hn] at hnew
    simp [Schema.hasTable, hb] at hnew
  have hkept : name ∉ d'.drops := by
    rw [hdrops]
    intro hname
    have hgone := (List.mem_filter.1 hname).2
    simp [Schema.hasTable, ha] at hgone
  have hname := hrep name
  rw [apply_apply db halters, if_neg hkept, hnone, hr, hcs', ha] at hname
  cases hname with
  | some hra =>
      exact Relation.not_represents_of_lacks (hbefore.columns b hbmem) (hafter.columns a hamem)
        (hbefore.indices b hbmem) (hafter.indices a hamem) hrb hclauses hra

/-- **No operation of a delta can be left out.**  A delta that passes over unchanged columns leads
to the later schema, and without any one of its creates, drops or clauses it does not. -/
theorem represents_apply_and_not_of_lacks (hbefore : before.Plain) (hafter : after.Plain)
    (h : db.Represents before) :
    (db.apply (.between before after .skipUnchanged)).Represents after ∧
      ∀ d', (Delta.between before after .skipUnchanged).Lacks d' →
        ¬ (db.apply d').Represents after := by
  refine ⟨represents_apply hafter.columns .skipUnchanged h, fun d' hlacks => ?_⟩
  have hnodup := Delta.nodup_alters_between before after .skipUnchanged
  generalize hd : Delta.between before after .skipUnchanged = d at hlacks hnodup
  cases hlacks with
  | create front t back alters drops =>
      exact not_represents_of_create hafter.tables h (congrArg Delta.creates hd) rfl hnodup
  | drop creates alters front name back =>
      exact not_represents_of_drop hbefore.tables h (congrArg Delta.drops hd) rfl hnodup
  | clause creates front name cs c ds back drops =>
      have hmem : (name, cs ++ c :: ds) ∈ (Delta.between before after .skipUnchanged).alters := by
        simp [hd]
      have hnames : (front ++ (name, cs ++ ds) :: back).map Prod.fst =
          (front ++ (name, cs ++ c :: ds) :: back).map Prod.fst := by simp
      have hnew : name ∉ front.map Prod.fst := by
        rw [List.map_append, List.map_cons, List.nodup_append'] at hnodup
        exact fun hmem => hnodup.2.2 hmem List.mem_cons_self
      refine not_represents_of_clause hbefore hafter h hmem ?_ (congrArg Delta.creates hd).symm
        (congrArg Delta.drops hd).symm (hnames ▸ hnodup)
      have hlookup : (front ++ (name, cs ++ ds) :: back).lookup name = some (cs ++ ds) := by
        refine List.lookup_eq_some_iff.2 ⟨front, back, rfl, fun p hp => ?_⟩
        exact bne_iff_ne.2 fun heq => hnew (List.mem_map.2 ⟨p, hp, heq.symm⟩)
      rw [Delta.clausesFor, hlookup]
      rfl
  | alteration creates front name c back drops =>
      have hmem : (name, [] ++ c :: []) ∈ (Delta.between before after .skipUnchanged).alters := by
        simp [hd]
      rw [(List.perm_middle.map Prod.fst).nodup_iff, List.map_cons, List.nodup_cons] at hnodup
      refine not_represents_of_clause hbefore hafter h hmem ?_ (congrArg Delta.creates hd).symm
        (congrArg Delta.drops hd).symm hnodup.2
      have hlookup : (front ++ back).lookup name = none := by
        refine List.lookup_eq_none_iff.2 fun p hp => ?_
        exact bne_iff_ne.2 fun heq => hnodup.1 (List.mem_map.2 ⟨p, hp, heq.symm⟩)
      rw [Delta.clausesFor, hlookup]
      rfl

/-- A column becomes another one, a key moves to it, a table goes and another one comes.  Without
the clause that adds the key, the key is missing. -/
theorem represents_apply_and_not_of_lacks_keyed :
    let column : Text → Text → List Qualifier → Field := fun name type qs => ⟨name, type, [], qs⟩
    let before : Schema := ⟨[.createTable ⟨['g'], [], []⟩,
      .createTable ⟨['t'], [column ['a'] "int".toList [.primaryKey]], []⟩]⟩
    let after : Schema := ⟨[.createTable ⟨['t'], [column ['a'] "text".toList []], [.uniqueOn ['a']]⟩,
      .createTable ⟨['n'], [column ['a'] "int".toList []], []⟩]⟩
    let db := empty.apply (.between .empty before {})
    let delta := Delta.between before after .skipUnchanged
    let shorter : Delta := { delta with alters :=
      [(['t'], [.alterField (column ['a'] "text".toList []), .dropIndex (.primaryOn ['a'])])] }
    (db.apply delta).Represents after ∧ delta.Lacks shorter ∧ ¬ (db.apply shorter).Represents after := by
  intro column before after db delta shorter
  have hdb : db.Represents before := represents_apply (by decide) {} represents_empty
  have hlacks : delta.Lacks shorter :=
    .clause delta.creates [] ['t']
      [.alterField (column ['a'] "text".toList []), .dropIndex (.primaryOn ['a'])]
      (.addIndex (.uniqueOn ['a'])) [] [] delta.drops
  have hbefore : before.Plain := by decide
  have hafter : after.Plain := by decide
  obtain ⟨hwhole, hpart⟩ := represents_apply_and_not_of_lacks hbefore hafter hdb
  exact ⟨hwhole, hlacks, hpart shorter hlacks⟩

end Database

end SchemaDelta
