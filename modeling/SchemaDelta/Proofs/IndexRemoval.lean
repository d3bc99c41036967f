/-
**Which drops of an alteration coincide.**

An index is dropped by its name, or by its leading column where it has none, and the primary key by
a clause of its own.  So two indices are dropped by the same clause when both are primary keys, or
when the name or the leading column of one is that of the other: a name is not told from a column.

The indices that columns imply have one column each, and with different names of columns they do not
get in each other's way, primary keys apart.  What remains are the declared ones.

Main definitions:

* `SchemaDelta.Index.dropTarget` — what an index is dropped by;
* `SchemaDelta.Clause.isDropIndex` — the clauses that drop an index;
* `SchemaDelta.Table.DropsApart` — no two indices that go have the same target.

Main results:

* `SchemaDelta.Text.quotedWith_injective` — different names are written differently;
* `SchemaDelta.Generator.dropText_injective`, `SchemaDelta.Generator.clause_dropIndex_eq_iff` — two
  indices are dropped by the same clause exactly when they have the same target;
* `SchemaDelta.Table.nodup_dropTarget_iff` — the indices that go, compared by their targets;
* `SchemaDelta.Delta.nodup_drops_iff` — **when all drops of an alteration are different**.
-/

import Mathlib.Data.List.Nodup
import SchemaDelta.Proofs.ImpliedIndex
import SchemaDelta.Script.Writing

set_option relaxedAutoImplicit false
set_option autoImplicit false

namespace SchemaDelta

/-! ### What an index is dropped by -/

/-- What an index is dropped by: nothing for the primary key, and otherwise the name or the leading
column. -/
def Index.dropTarget (i : Index) : Option Text :=
  if i.primary then none else some (i.name.getD i.leading)

/-- Whether a clause drops an index. -/
def Clause.isDropIndex : Clause → Bool
  | .dropIndex _ => true
  | _ => false

namespace Text

theorem doubled_injective (q : Char) : Function.Injective (doubled q) := by
  intro s t h
  induction s generalizing t with
  | nil =>
      cases t with
      | nil => rfl
      | cons d t =>
          rw [doubled_nil, doubled_cons] at h
          split at h <;> cases h
  | cons c s ih =>
      cases t with
      | nil =>
          rw [doubled_nil, doubled_cons] at h
          split at h <;> cases h
      | cons d t =>
          rw [doubled_cons, doubled_cons] at h
          by_cases hc : c = q
          · by_cases hd : d = q
            · rw [if_pos hc, if_pos hd] at h
              rw [hc, hd, ih (List.append_cancel_left h)]
            · rw [if_pos hc, if_neg hd] at h
              exact absurd (List.cons.inj h).1.symm hd
          · by_cases hd : d = q
            · rw [if_neg hc, if_pos hd] at h
              exact absurd (List.cons.inj h).1 hc
            · rw [if_neg hc, if_neg hd] at h
              obtain ⟨rfl, hst⟩ := List.cons.inj h
              rw [ih hst]

/-- **Different names are written differently.** -/
theorem quotedWith_injective (q : Char) : Function.Injective (quotedWith q) := by
  intro s t h
  exact doubled_injective q (List.append_cancel_right (List.cons.inj h).2)

end Text

namespace Generator

/-- The clause that drops what has the given target. -/
def dropText : Option Text → Text
  | none => "DROP PRIMARY KEY".toList
  | some name => "DROP INDEX ".toList ++ Text.quotedWith backtick name

theorem clause_dropIndex (i : Index) :
    Generator.mysql.clause (.dropIndex i) = dropText i.dropTarget := by
  change (if i.primary = true then "DROP PRIMARY KEY".toList
    else "DROP INDEX ".toList ++ Text.quotedWith backtick (i.name.getD i.leading)) = _
  rw [Index.dropTarget]
  split <;> rfl

theorem dropText_injective : Function.Injective dropText := by
  have hdiffer : ∀ name, dropText none ≠ dropText (some name) := by
    intro name h
    unfold dropText at h
    have hfront := congrArg (List.take 6) h
    rw [List.take_append_of_le_length (by decide)] at hfront
    exact absurd hfront (by decide)
  intro t t' h
  cases t with
  | none =>
      cases t' with
      | none => rfl
      | some name => exact absurd h (hdiffer name)
  | some name =>
      cases t' with
      | none => exact absurd h.symm (hdiffer name)
      | some name' =>
          unfold dropText at h
          rw [Text.quotedWith_injective backtick (List.append_cancel_left h)]

/-- **Two indices are dropped by the same clause** exactly when they have the same target. -/
theorem clause_dropIndex_eq_iff (i j : Index) :
    Generator.mysql.clause (.dropIndex i) = Generator.mysql.clause (.dropIndex j) ↔
      i.dropTarget = j.dropTarget := by
  rw [clause_dropIndex, clause_dropIndex]
  exact dropText_injective.eq_iff

end Generator

/-! ### The indices that go -/

namespace Table

/-- No two different indices that the earlier table has and the later one lacks have the same
target. -/
structure DropsApart (b a : Table) : Prop where
  /-- A declared index that goes has the target of no other one. -/
  declared : ∀ i ∈ b.declared, i ∉ a.indices → ∀ j ∈ b.indices, j ∉ a.indices →
    i.dropTarget = j.dropTarget → i = j
  /-- At most one column loses the primary key. -/
  primary : ∀ f ∈ b.fields, ∀ g ∈ b.fields, f.index? = some (.primaryOn f.name) →
    g.index? = some (.primaryOn g.name) → .primaryOn f.name ∉ a.indices →
    .primaryOn g.name ∉ a.indices → f = g

variable {b a : Table}

theorem filter_isDropIndex_clausesTo (o : Options) :
    (b.clausesTo a o).filter Clause.isDropIndex = (b.droppedIndices a).map .dropIndex := by
  have hnone : ∀ {α : Type} (g : α → Clause) (l : List α), (∀ x, (g x).isDropIndex = false) →
      (l.map g).filter Clause.isDropIndex = [] := by
    intro α g l hg
    rw [List.filter_eq_nil_iff]
    intro c hc
    obtain ⟨x, -, rfl⟩ := List.mem_map.1 hc
    simp [hg x]
  have hall : ((b.droppedIndices a).map Clause.dropIndex).filter Clause.isDropIndex =
      (b.droppedIndices a).map .dropIndex := by
    rw [List.filter_eq_self]
    intro c hc
    obtain ⟨i, -, rfl⟩ := List.mem_map.1 hc
    rfl
  simp only [clausesTo, List.filter_append]
  rw [hnone .addField _ fun _ => rfl, hnone .dropField _ fun _ => rfl,
    hnone .alterField _ fun _ => rfl, hall, hnone .addIndex _ fun _ => rfl, List.append_nil]
  rfl

theorem mem_droppedIndices {i : Index} :
    i ∈ b.droppedIndices a ↔ i ∈ b.indices ∧ i ∉ a.indices := by
  simp [droppedIndices]

/-- With different names of columns, two implied indices have the same target only if both are
primary keys. -/
theorem primary_of_dropTarget_eq {f g : Field} {i j : Index} (hf : f.index? = some i)
    (hg : g.index? = some j) (hname : f.name ≠ g.name) (htarget : i.dropTarget = j.dropTarget) :
    i = .primaryOn f.name ∧ j = .primaryOn g.name := by
  rcases Field.eq_of_index? hf with rfl | rfl <;> rcases Field.eq_of_index? hg with rfl | rfl
  · exact ⟨rfl, rfl⟩
  · cases htarget
  · cases htarget
  · exact absurd (Option.some.inj htarget) hname

/-- **The indices that go have different targets** exactly when none of them is listed twice and
they are dropped apart. -/
theorem nodup_dropTarget_iff (hb : b.DistinctColumns) :
    ((b.droppedIndices a).map Index.dropTarget).Nodup ↔
      (b.droppedIndices a).Nodup ∧ b.DropsApart a := by
  constructor
  · intro h
    have hinj : ∀ i ∈ b.indices, i ∉ a.indices → ∀ j ∈ b.indices, j ∉ a.indices →
        i.dropTarget = j.dropTarget → i = j := fun i hi hia j hj hja =>
      List.inj_on_of_nodup_map h (mem_droppedIndices.2 ⟨hi, hia⟩)
        (mem_droppedIndices.2 ⟨hj, hja⟩)
    refine ⟨h.of_map _, fun i hi => hinj i (mem_indices.2 (.inl hi)),
      fun f hf g hg hfi hgi hfa hga => ?_⟩
    have hsame := hinj _ (mem_indices.2 (.inr ⟨f, hf, hfi⟩)) hfa _
      (mem_indices.2 (.inr ⟨g, hg, hgi⟩)) hga rfl
    exact eq_of_nameOf_eq hb hf hg (List.cons.inj (congrArg Index.columns hsame)).1
  · rintro ⟨honce, h⟩
    refine (List.nodup_map_iff_inj_on honce).2 fun i hi j hj htarget => ?_
    obtain ⟨hi, hia⟩ := mem_droppedIndices.1 hi
    obtain ⟨hj, hja⟩ := mem_droppedIndices.1 hj
    rcases mem_indices.1 hi with hdeclared | ⟨f, hf, hfi⟩
    · exact h.declared i hdeclared hia j hj hja htarget
    rcases mem_indices.1 hj with hdeclared | ⟨g, hg, hgj⟩
    · exact (h.declared j hdeclared hja i hi hia htarget.symm).symm
    by_cases hname : f.name = g.name
    · obtain rfl := eq_of_nameOf_eq hb hf hg hname
      exact Option.some.inj (hfi.symm.trans hgj)
    · obtain ⟨rfl, rfl⟩ := primary_of_dropTarget_eq hfi hgj hname htarget
      rw [h.primary f hf g hg hfi hgj hia hja]

end Table

namespace Delta

/-- **All drops of an alteration are different** exactly when none of the indices that go is listed
twice and they are dropped apart. -/
theorem nodup_drops_iff {before after : Schema} {o : Options} {name : Text}
    {clauses : List Clause} {b a : Table} (hdistinct : before.DistinctColumns)
    (hb : before.table? name = some b) (ha : after.table? name = some a)
    (h : (name, clauses) ∈ (between before after o).alters) :
    ((clauses.filter Clause.isDropIndex).map Generator.mysql.clause).Nodup ↔
      (b.droppedIndices a).Nodup ∧ b.DropsApart a := by
  obtain ⟨b', a', hb', ha', rfl, -⟩ := Schema.clausesAt?_eq_some_iff.1 (mem_alters_between.1 h)
  rw [hb] at hb'
  rw [ha] at ha'
  cases hb'
  cases ha'
  rw [← Table.nodup_dropTarget_iff (hdistinct b (Schema.mem_tables_of_table? hb)),
    Table.filter_isDropIndex_clausesTo, List.map_map]
  simp only [List.Nodup, List.pairwise_map, Function.comp_apply, ne_eq,
    Generator.clause_dropIndex_eq_iff]

/-- A primary key, a unique key of a column and a named index on the same column go together. -/
theorem nodup_drops_iff_named :
    let column : Text → List Qualifier → Field := fun name qs => ⟨name, "int".toList, [], qs⟩
    let b : Table := ⟨['t'], [column ['a'] [.uniqueKey], column ['b'] [.primaryKey]],
      [{ columns := [['a']], name := some ['i'] }]⟩
    let a : Table := ⟨['t'], [column ['a'] [], column ['b'] []], []⟩
    let before : Schema := ⟨[.createTable b]⟩
    let after : Schema := ⟨[.createTable a]⟩
    let clauses : List Clause :=
      [.dropIndex { columns := [['a']], name := some ['i'] }, .dropIndex (.uniqueOn ['a']),
        .dropIndex (.primaryOn ['b'])]
    (['t'], clauses) ∈ (between before after .skipUnchanged).alters ∧
      (b.droppedIndices a).Nodup ∧
      ((clauses.filter Clause.isDropIndex).map Generator.mysql.clause).Nodup := by
  intro column b a before after clauses
  have hmem : (['t'], clauses) ∈ (between before after .skipUnchanged).alters := by decide
  have honce : (b.droppedIndices a).Nodup := by decide
  have hapart : b.DropsApart a := ⟨by decide, by decide⟩
  exact ⟨hmem, honce, (nodup_drops_iff (by decide) rfl rfl hmem).2 ⟨honce, hapart⟩⟩

/-- **Two indices without a name that start with the same column** are dropped by the same clause. -/
theorem exists_dropped_twice :
    ∃ before after, Schema.read "CREATE TABLE t (a INT, b INT, KEY (a), KEY (a, b));".toList .mysql =
        .ok before ∧
      Schema.read "CREATE TABLE t (a INT, b INT);".toList .mysql = .ok after ∧
      before.tableNames.Nodup ∧ after.tableNames.Nodup ∧
      before.DistinctColumns ∧ after.DistinctColumns ∧
      (between before after .skipUnchanged).alters.map
          (fun a => (a.1, (a.2.filter Clause.isDropIndex).map Generator.mysql.clause)) =
        [(['t'], ["DROP INDEX `a`".toList, "DROP INDEX `a`".toList])] := by
  let fields : List Field := [⟨['a'], "int".toList, [], []⟩, ⟨['b'], "int".toList, [], []⟩]
  have hbefore : Schema.read "CREATE TABLE t (a INT, b INT, KEY (a), KEY (a, b));".toList .mysql =
      .ok ⟨[.createTable ⟨['t'], fields, [{ columns := [['a']] }, { columns := [['a'], ['b']] }]⟩]⟩ :=
    Schema.read_of_toOption (by decide +kernel)
  have hafter : Schema.read "CREATE TABLE t (a INT, b INT);".toList .mysql =
      .ok ⟨[.createTable ⟨['t'], fields, []⟩]⟩ :=
    Schema.read_of_toOption (by decide +kernel)
  exact ⟨_, _, hbefore, hafter, by decide, by decide, by decide, by decide, by decide +kernel⟩

end Delta

end SchemaDelta
