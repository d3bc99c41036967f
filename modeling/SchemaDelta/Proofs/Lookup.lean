/-
**Positions by name.**

Tables of a schema and columns of a table are looked up by name.  When a list of named things is
noted down, each of them puts its position into a map from names to positions, in place of a
position that is there for the same name already.  A lookup takes the position from the map and then
the thing at that position.  In this way the last thing of a name is found, and no position in the
map lies outside of the list.

Main definitions:

* `SchemaDelta.positions` — the map from names to positions;
* `SchemaDelta.FindsLast` — a function and a list of entries by name both give the last thing of
  every name, by positions in range.

Main results:

* `SchemaDelta.foldl_position_apply`, `SchemaDelta.positions_apply` — **the map holds the last
  position of each name**;
* `SchemaDelta.lastNamed?_eq_some_iff` — what a lookup gives stands behind everything else of its
  name;
* `SchemaDelta.findsLast_lastNamed?` — lookups by name find the last thing;
* `SchemaDelta.Schema.table?_eq_some_iff` — the table of a name is that of the last statement which
  creates one;
* `SchemaDelta.Schema.findsLast` — **tables and their columns are found by name**, and nothing out
  of range is looked at.
-/

import SchemaDelta.Proofs.Rearrangement

set_option relaxedAutoImplicit false
set_option autoImplicit false

namespace SchemaDelta

variable {α : Type} {nameOf : α → Text} {es : List α} {name : Text}

/-! ### Noting down positions -/

/-- The positions of things by name: one after the other is noted down, and a later position takes
the place of an earlier one. -/
def positions (nameOf : α → Text) (es : List α) : Text → Option Nat :=
  es.zipIdx.foldl (fun m e => Function.update m (nameOf e.1) (some e.2)) fun _ => none

/-- Positions that are counted from `k` on and noted down in a map that may hold others already. -/
theorem foldl_position_apply (nameOf : α → Text) (es : List α) (k : Nat) (m : Text → Option Nat)
    (name : Text) :
    (es.zipIdx k).foldl (fun m e => Function.update m (nameOf e.1) (some e.2)) m name =
      ((lastPosition? nameOf name es).map (· + k)).or (m name) := by
  induction es generalizing k m with
  | nil => rfl
  | cons e es ih =>
      rw [List.zipIdx_cons, List.foldl_cons, ih, lastPosition?]
      cases lastPosition? nameOf name es with
      | some i =>
          simp only [Option.map_some, Option.some_or, Option.some.injEq]
          omega
      | none =>
          by_cases he : nameOf e = name
          · subst he
            simp
          · simp [he, Function.update_of_ne (Ne.symm he)]

/-- **The map holds the last position of each name.** -/
theorem positions_apply (nameOf : α → Text) (es : List α) (name : Text) :
    positions nameOf es name = lastPosition? nameOf name es := by
  rw [positions, foldl_position_apply]
  simp

/-! ### The last thing of a name -/

/-- What a lookup gives stands behind everything else of its name. -/
theorem lastNamed?_eq_some_iff {e : α} :
    lastNamed? nameOf name es = some e ↔
      ∃ before after, es = before ++ e :: after ∧ nameOf e = name ∧
        ∀ x ∈ after, nameOf x ≠ name := by
  constructor
  · intro h
    induction es with
    | nil => cases h
    | cons x xs ih =>
        rw [lastNamed?_cons] at h
        cases hx : lastNamed? nameOf name xs with
        | some y =>
            rw [hx, Option.some_or] at h
            obtain ⟨before, after, rfl, hname, hafter⟩ := ih (hx.trans h)
            exact ⟨x :: before, after, rfl, hname, hafter⟩
        | none =>
            rw [hx, Option.none_or] at h
            by_cases hn : nameOf x = name
            · rw [if_pos hn] at h
              cases h
              exact ⟨[], xs, rfl, hn, lastNamed?_eq_none_iff.1 hx⟩
            · rw [if_neg hn] at h
              cases h
  · rintro ⟨before, after, rfl, hname, hafter⟩
    induction before with
    | nil =>
        rw [List.nil_append, lastNamed?_cons, lastNamed?_eq_none_iff.2 hafter, Option.none_or,
          if_pos hname]
    | cons x before ih => rw [List.cons_append, lastNamed?_cons, ih, Option.some_or]

/-- The entries by name have one entry for each name, that of the lookup. -/
theorem lookup_lastByName (nameOf : α → Text) (es : List α) (name : Text) :
    (lastByName nameOf es).lookup name = lastNamed? nameOf name es := by
  rw [lastByName, lookup_filterMap_of_nodup (nodup_sortedNames _)]
  by_cases hmem : name ∈ sortedNames (es.map nameOf)
  · rw [if_pos hmem]
  · rw [if_neg hmem]
    refine (lastNamed?_eq_none_iff.2 fun e he hname => hmem ?_).symm
    exact mem_sortedNames.2 (List.mem_map.2 ⟨e, he, hname⟩)

/-- A function and a list of entries by name both give the last thing of every name, by positions
that are in range. -/
structure FindsLast (nameOf : α → Text) (es : List α) (find? : Text → Option α)
    (byName : List (Text × α)) : Prop where
  /-- A position that was noted down lies in the list, and what stands there is found. -/
  position_lt : ∀ name i, positions nameOf es name = some i →
    ∃ h : i < es.length, find? name = some es[i]
  /-- Where no position was noted down, nothing is found. -/
  position_none : ∀ name, positions nameOf es name = none → find? name = none
  isSome_iff : ∀ name, (find? name).isSome = true ↔ ∃ e ∈ es, nameOf e = name
  /-- What is found is the last thing of its name. -/
  eq_some_iff : ∀ name e, find? name = some e ↔ ∃ before after, es = before ++ e :: after ∧
    nameOf e = name ∧ ∀ x ∈ after, nameOf x ≠ name
  lookup_byName : ∀ name, byName.lookup name = find? name
  nodup_byName : (byName.map Prod.fst).Nodup

/-- **Lookups by name find the last thing.** -/
theorem findsLast_lastNamed? (nameOf : α → Text) (es : List α) :
    FindsLast nameOf es (fun name => lastNamed? nameOf name es) (lastByName nameOf es) where
  position_lt name i h := by
    rw [positions_apply] at h
    have hlt : i < es.length := lastPosition?_lt_length h
    exact ⟨hlt, by simp [lastNamed?, h, hlt]⟩
  position_none name h := by
    rw [positions_apply] at h
    simp [lastNamed?, h]
  isSome_iff _ := lastNamed?_isSome_iff
  eq_some_iff _ _ := lastNamed?_eq_some_iff
  lookup_byName name := lookup_lastByName nameOf es name
  nodup_byName := by
    rw [map_fst_lastByName]
    exact nodup_sortedNames _

/-! ### Tables of a schema -/

namespace Schema

variable {ss : List Statement} {T : Table}

theorem mem_tables : T ∈ tables ⟨ss⟩ ↔ .createTable T ∈ ss := by
  rw [tables, List.mem_filterMap]
  constructor
  · rintro ⟨x, hx, hT⟩
    exact Statement.eq_of_table? hT ▸ hx
  · intro hT
    exact ⟨.createTable T, hT, rfl⟩

/-- The tables are those of the statements that create one, in order. -/
theorem filter_isSome_table? (ss : List Statement) :
    ss.filter (fun x => x.table?.isSome) = (tables ⟨ss⟩).map .createTable := by
  induction ss with
  | nil => rfl
  | cons x ss ih =>
      rw [tables] at ih
      rw [tables, List.filter_cons, List.filterMap_cons, ih]
      cases x <;> rfl

/-- The table of a name is that of the last statement which creates one. -/
theorem table?_eq_some_iff :
    table? ⟨ss⟩ name = some T ↔
      ∃ before after, ss = before ++ .createTable T :: after ∧ T.name = name ∧
        ∀ U, .createTable U ∈ after → U.name ≠ name := by
  rw [table?, lastNamed?_eq_some_iff]
  constructor
  · rintro ⟨ts, us, hsplit, hname, hlast⟩
    obtain ⟨before, ss', rfl, -, hss'⟩ := List.filterMap_eq_append_iff.1 hsplit
    obtain ⟨others, x, after, rfl, -, hx, rfl⟩ := List.filterMap_eq_cons_iff.1 hss'
    obtain rfl := Statement.eq_of_table? hx
    refine ⟨before ++ others, after, by simp, hname, fun U hU => ?_⟩
    exact hlast U (List.mem_filterMap.2 ⟨.createTable U, hU, rfl⟩)
  · rintro ⟨before, after, rfl, hname, hlast⟩
    refine ⟨tables ⟨before⟩, tables ⟨after⟩, ?_, hname, fun U hU => hlast U (mem_tables.1 hU)⟩
    rw [tables, List.filterMap_append, List.filterMap_cons]
    rfl

/-- **Tables and their columns are found by name**, and nothing out of range is looked at.  The
tables of a schema are those of the statements that create one, in order; the table of a name is
that of the last such statement, and the column of a name is the last one of its table. -/
theorem findsLast (ss : List Statement) :
    FindsLast Table.name (tables ⟨ss⟩) (table? ⟨ss⟩) (tablesByName ⟨ss⟩) ∧
      (∀ T : Table, FindsLast Field.name T.fields T.field? T.fieldsByName) ∧
      ss.filter (fun x => x.table?.isSome) = (tables ⟨ss⟩).map .createTable ∧
      ∀ name, (hasTable ⟨ss⟩ name = true ↔ ∃ T, .createTable T ∈ ss ∧ T.name = name) ∧
        (hasTable ⟨ss⟩ name = (table? ⟨ss⟩ name).isSome) ∧
        ∀ T, table? ⟨ss⟩ name = some T ↔
          ∃ before after, ss = before ++ .createTable T :: after ∧ T.name = name ∧
            ∀ U, .createTable U ∈ after → U.name ≠ name := by
  refine ⟨findsLast_lastNamed? Table.name _, fun T => findsLast_lastNamed? Field.name T.fields,
    filter_isSome_table? ss, fun name => ⟨?_, rfl, fun T => table?_eq_some_iff⟩⟩
  rw [hasTable, table?, lastNamed?_isSome_iff]
  constructor
  · rintro ⟨T, hT, hname⟩
    exact ⟨T, mem_tables.1 hT, hname⟩
  · rintro ⟨T, hT, hname⟩
    exact ⟨T, mem_tables.2 hT, hname⟩

end Schema

end SchemaDelta
