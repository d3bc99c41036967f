/-
**Reading a written table again.**

A table of a schema that was read is written in one form, and that form is read as one statement,
which creates the same table.  The exception is a default that was kept as it was written and that
the text behind it completes to the time of the change: such a word starts with `now`, goes on with
two dashes, and after the end of the line there is a call.

Main results:

* `SchemaDelta.Schema.read_createTable_iff` — **a written table is read back** exactly if no default
  runs on;
* `SchemaDelta.Schema.exists_not_read_back` — a table with a default that runs on.
-/

import SchemaDelta.Proofs.Reading

set_option relaxedAutoImplicit false
set_option autoImplicit false

namespace SchemaDelta

namespace Schema

open Source

/-- **A written table is read back** as the only statement exactly if no default runs on. -/
theorem read_createTable_iff {source : Text} {s : Schema} {t : SchemaDelta.Table}
    (hs : Schema.read source .mysql = .ok s) (ht : t ∈ s.tables)
    (hne : t.fields ≠ [] ∨ t.declared ≠ []) (hplain : t.Plain) :
    Schema.read (Generator.mysql.createTable t) .mysql = .ok ⟨[.createTable t]⟩ ↔ ¬ t.RunsOn [] := by
  have hwell := wellFormed_of_read hs t ht
  have hitems := Table.items_ne_nil hne
  obtain ⟨u, hu⟩ := exists_createTable_eq hitems []
  have hcreate : Generator.mysql.createTable t = 'C' :: ("REATE TABLE ".toList ++ u) := by
    rw [← List.append_nil (Generator.mysql.createTable t), hu]
    rfl
  constructor
  · intro hread hruns
    obtain ⟨ss, hss, heq⟩ := exists_of_read hread
    -- the only statement was read as the creation of a table, which is another one
    obtain ⟨st, rfl, hst⟩ : ∃ st, ss = [st] ∧ st.meaning = .createTable t := by
      simpa [List.map_eq_singleton_iff, eq_comm] using congrArg Schema.statements heq
    rw [hcreate] at hss
    obtain ⟨rest, hrest⟩ := exists_of_readStatements_cons (by decide) hss
    cases st with
    | createTable T =>
        have hT := createTable_of_statement hrest
        rw [← hcreate, ← List.append_nil (Generator.mysql.createTable t)] at hT
        cases hst
        exact createTable_of_runsOn hwell hitems hplain hruns hT rfl
    | _ => cases hst
  · intro hnot
    obtain ⟨T, hread, hmeaning⟩ := createTable_append hwell hitems hplain hnot
    rw [hu] at hread
    have hst := statement_createTable hread
    have hss : readStatements (Generator.mysql.createTable t) = .ok [.createTable T] := by
      have hstep := readStatements_append (w := []) rfl (by decide) hst
        (Nat.succ_pos _)
      rw [hcreate]
      exact hstep.trans (congrArg (Except.map _) readStatements_nil)
    rw [read_of_readStatements hss, ← hmeaning]
    rfl

/-- A table with a type that has arguments, both kinds of words for an index and two defaults. -/
def sampleTable : Table where
  name := ['a']
  fields := [
    { name := ['b'], type := "enum".toList, args := ["'x;'".toList, "'y'".toList],
      qualifiers := [.default (.text "it's".toList), .uniqueKey] },
    { name := ['c'], type := "int".toList, args := [],
      qualifiers := [.default (.unclassified "now".toList)] }]
  declared := [{ columns := [['b']] }]

theorem read_createTable_sample :
    Schema.read (Generator.mysql.createTable sampleTable) .mysql =
      .ok ⟨[.createTable sampleTable]⟩ := by
  have hs : Schema.read ("CREATE TABLE a (b ENUM('x;', 'y') DEFAULT 'it''s' UNIQUE, " ++
      "c INT DEFAULT now, KEY (b));").toList .mysql = .ok ⟨[.createTable sampleTable]⟩ :=
    read_of_toOption (by decide +kernel)
  have ht : sampleTable ∈ Schema.tables ⟨[.createTable sampleTable]⟩ := by decide
  have hnot : ¬ sampleTable.RunsOn [] :=
    not_runsOn_of_forall_lacksDashes (wellFormed_of_read hs _ ht) (by decide) []
  exact (read_createTable_iff hs ht (.inl (by decide)) (by decide)).2 hnot

/-- The dashes after `now` open a comment up to the line feed in the string below, and what the
string goes on with is the call. -/
theorem exists_not_read_back :
    ∃ source s t, Schema.read source .mysql = .ok s ∧ t ∈ s.tables ∧ t.fields ≠ [] ∧ t.Plain ∧
      ∀ s', Schema.read (Generator.mysql.createTable t) .mysql ≠ .ok s' := by
  let t : Table :=
    { name := ['t'], declared := [],
      fields := [{ name := ['a'], type := "int".toList, args := [],
                   qualifiers := [.default (.unclassified "now--x".toList),
                                  .default (.text ['\n', '(', ')'])] }] }
  have hs : Schema.read "CREATE TABLE t (a INT DEFAULT now--x\nDEFAULT '\n()');".toList .mysql =
      .ok ⟨[.createTable t]⟩ :=
    read_of_toOption (by decide +kernel)
  have hnone : (Schema.read (Generator.mysql.createTable t) .mysql).toOption = none := by
    decide +kernel
  refine ⟨_, _, t, hs, by decide, by decide, by decide, fun s' h => ?_⟩
  rw [h] at hnone
  cases hnone

end Schema

end SchemaDelta
