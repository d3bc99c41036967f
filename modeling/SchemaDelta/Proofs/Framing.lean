/-
**The statements of a script.**

Between the statements that open and close the transaction a script is itself a text of the schema
language.  It is read as the statements that were written, one for one: whatever the strings in it
are, they do not move the end of a statement.

Main definitions:

* `SchemaDelta.Change` — a statement of a script, and `SchemaDelta.Generator.change` — how it is
  written;
* `SchemaDelta.Delta.changes` — the statements of the script of a delta;
* `SchemaDelta.Change.IsReadAs` — the statement that a change is read as;
* `SchemaDelta.Table.Quiet` — the tables whose names and defaults open no comment and no escape.

Main results:

* `SchemaDelta.Generator.script_eq` — the statements stand inside of the transaction;
* `SchemaDelta.Source.verbatimEnd_append` — a statement that is not looked into ends at its
  semicolon;
* `SchemaDelta.Delta.readsAs_change` — each of the statements is read whatever follows;
* `SchemaDelta.Delta.script_framed` — **the script of a delta is read statement by statement**.
-/

import SchemaDelta.Proofs.Alteration
import SchemaDelta.Proofs.Verbatim
import SchemaDelta.Proofs.ImpliedIndex

set_option relaxedAutoImplicit false
set_option autoImplicit false

namespace SchemaDelta

/-! ### Changes -/

/-- A statement of a script inside of the transaction. -/
inductive Change where
  /-- The checking of foreign keys is turned on or off. -/
  | checks (enabled : Bool)
  /-- A table is created. -/
  | create (table : Table)
  /-- A table is altered by the clauses. -/
  | alter (name : Text) (clauses : List Clause)
  /-- A table is dropped. -/
  | drop (name : Text)
  deriving Repr, DecidableEq

/-- The text of a change. -/
def Generator.change (g : Generator) : Change → Text
  | .checks enabled => g.foreignKeyChecks enabled
  | .create t => g.createTable t
  | .alter name clauses => g.alterTable name clauses
  | .drop name => g.dropTable name

/-- The changes of a delta in the order of its script. -/
def Delta.changes (d : Delta) : List Change :=
  [.checks false] ++ d.creates.map .create ++ d.alters.map (fun a => .alter a.1 a.2) ++
    d.drops.map .drop ++ [.checks true]

/-- The statement that a change is read as: the same table is created, and what else is written
stands in a statement of its own kind word for word. -/
def Change.IsReadAs : Change → Source.Statement → Prop
  | .checks enabled, st =>
    st = .set (" foreign_key_checks=".toList ++ [if enabled then '1' else '0'])
  | .create t, st => ∃ T, st = .createTable T ∧ T.meaning = t
  | .alter name clauses, st =>
    st = .alterTable (Generator.mysql.quoteIdentifier name)
      (' ' :: Text.joinWith ",\n  ".toList (clauses.map Generator.mysql.clause))
  | .drop name, st => st = .dropTable (' ' :: Generator.mysql.quoteIdentifier name)

theorem Delta.length_changes (d : Delta) : d.changes.length = d.statementCount + 2 := by
  simp only [changes, statementCount, List.length_append, List.length_map, List.length_singleton]
  omega

/-- The first and the last of several parts stand around the others. -/
theorem Text.joinWith_between {sep first last : Text} {ts : List Text} (hne : ts ≠ []) :
    joinWith sep (first :: (ts ++ [last])) =
      first ++ sep ++ joinWith sep ts ++ (sep ++ last) := by
  obtain ⟨t, ts, rfl⟩ := List.exists_cons_of_ne_nil hne
  rw [joinWith_cons, joinWith_cons, List.flatMap_append, List.flatMap_cons]
  simp only [List.flatMap_cons, List.flatMap_nil, List.append_assoc, List.append_nil]

/-- The changes of a script stand inside of the transaction. -/
theorem Generator.script_eq (g : Generator) (d : Delta) :
    g.script d = g.beginTransaction ++ "\n\n".toList ++
      Text.joinWith "\n\n".toList (d.changes.map g.change) ++
        ("\n\n".toList ++ g.commitTransaction ++ ['\n']) := by
  have hchanges : d.changes.map g.change =
      [g.foreignKeyChecks false] ++ g.statements d ++ [g.foreignKeyChecks true] := by
    simp only [Delta.changes, statements, List.map_append, List.map_map, List.append_assoc]
    rfl
  have hne : d.changes.map g.change ≠ [] := by
    rw [hchanges]
    simp
  have hparts : [g.beginTransaction, g.foreignKeyChecks false] ++ g.statements d ++
      [g.foreignKeyChecks true, g.commitTransaction] =
        g.beginTransaction :: (d.changes.map g.change ++ [g.commitTransaction]) := by
    rw [hchanges]
    simp
  unfold script
  rw [hparts, Text.joinWith_between hne]
  simp only [List.append_assoc]

/-! ### What is not taken for anything else -/

/-- No name of the table has a backslash in it, and no word that is a default has two dashes. -/
structure Table.Quiet (t : Table) : Prop where
  name : '\\' ∉ t.name
  fields : ∀ f ∈ t.fields, f.Quiet
  declared : ∀ i ∈ t.declared, i.Quiet

instance : DecidablePred Table.Quiet := fun t =>
  decidable_of_iff ('\\' ∉ t.name ∧ (∀ f ∈ t.fields, f.Quiet) ∧ ∀ i ∈ t.declared, i.Quiet)
    ⟨fun h => ⟨h.1, h.2.1, h.2.2⟩, fun h => ⟨h.name, h.fields, h.declared⟩⟩

/-- The clauses that are passed over in a statement that is not looked into. -/
def Clause.Quiet : Clause → Prop
  | .addField f | .alterField f => f.WellFormed ∧ f.Plain ∧ f.Quiet
  | .dropField name => backtick ∉ name ∧ '\\' ∉ name
  | .dropIndex i | .addIndex i => i.Plain ∧ i.Quiet

theorem Table.quiet_of_mem_indices {t : Table} (hplain : t.Plain) (hquiet : t.Quiet) {i : Index}
    (hi : i ∈ t.indices) : i.Plain ∧ i.Quiet := by
  rcases mem_indices.1 hi with hi | ⟨f, hf, hfi⟩
  · exact ⟨hplain.declared i hi, hquiet.declared i hi⟩
  · obtain ⟨hcolumns, hname⟩ : i.columns = [f.name] ∧ i.name = none := by
      rcases Field.eq_of_index? hfi with rfl | rfl <;> exact ⟨rfl, rfl⟩
    have hplain := (hplain.fields f hf).name
    have hquiet := (hquiet.fields f hf).name
    refine ⟨⟨?_, ?_⟩, ⟨?_, ?_⟩⟩
    · rw [hname]
      nofun
    · rw [hcolumns]
      simpa using hplain
    · rw [hname]
      nofun
    · rw [hcolumns]
      simpa using hquiet

/-- The clauses that lead from one table to another have nothing that the tables do not have. -/
theorem Table.quiet_of_mem_clausesTo {b a : Table} (hb : b.Plain ∧ b.Quiet)
    (ha : a.WellFormed ∧ a.Plain ∧ a.Quiet) (o : Options) :
    ∀ c ∈ b.clausesTo a o, c.Quiet := by
  intro c hc
  have hfield : ∀ f ∈ a.fields, f.WellFormed ∧ f.Plain ∧ f.Quiet :=
    fun f hf => ⟨ha.1.fields f hf, ha.2.1.fields f hf, ha.2.2.fields f hf⟩
  simp only [clausesTo, List.mem_append, List.mem_map, or_assoc] at hc
  rcases hc with ⟨f, hf, rfl⟩ | ⟨n, hn, rfl⟩ | ⟨f, hf, rfl⟩ | ⟨i, hi, rfl⟩ | ⟨i, hi, rfl⟩
  · exact hfield f (List.mem_of_mem_filter hf)
  · obtain ⟨f, hf, rfl⟩ := List.mem_map.1 hn
    have hf := List.mem_of_mem_filter hf
    exact ⟨(hb.1.fields f hf).name, (hb.2.fields f hf).name⟩
  · exact hfield f (List.mem_of_mem_filter hf)
  · exact quiet_of_mem_indices hb.1 hb.2 (List.mem_of_mem_filter hi)
  · exact quiet_of_mem_indices ha.2.1 ha.2.2 (List.mem_of_mem_filter hi)

/-! ### Changes are read one by one -/

namespace Source

open Rule Lexeme

variable {t : Text}

/-- **A statement that is not looked into** ends at its semicolon. -/
theorem verbatimEnd_append (ht : Passes t) (rest : Text) :
    verbatimEnd (t ++ ';' :: rest) = .ok t rest := by
  have hcalm : Calm (';' :: rest) := calm_cons (by decide) (by decide) rest
  obtain ⟨us, hus⟩ := ht (';' :: rest) (';' :: rest) hcalm (reaches_semicolon rest)
  refine (bind_of_ok (matched_of_ok hus) _).trans ?_
  exact bind_of_ok (statementEnd_append rest) _

theorem readsAs_checks (enabled : Bool) :
    ReadsAs (Change.checks enabled).IsReadAs (Generator.mysql.foreignKeyChecks enabled) := by
  refine ⟨⟨'S', _, rfl, by decide⟩, fun rest => ⟨_, ?_, rfl⟩⟩
  have hvalue : Passes (" foreign_key_checks=".toList ++ [if enabled then '1' else '0']) := by
    cases enabled <;> exact passes_plain (by decide)
  have hset := keyword_append "set" "SET".toList (by decide) (wordEnds_space
    ("foreign_key_checks=".toList ++ [if enabled then '1' else '0'] ++ ';' :: rest))
  have hread : setStatement ("SET".toList ++
      (" foreign_key_checks=".toList ++ [if enabled then '1' else '0'] ++ ';' :: rest)) =
        .ok (.set (" foreign_key_checks=".toList ++ [if enabled then '1' else '0'])) rest :=
    (bind_of_ok hset _).trans (bind_of_ok (verbatimEnd_append hvalue rest) _)
  exact firstOf_of_ledBy ledBy_statements 2 rfl "SET".toList (by decide) hread

/-- A table is dropped if its quoted name is passed over. -/
theorem readsAs_drop_of_passes {name : Text} (hname : Passes (Generator.mysql.quoteIdentifier name)) :
    ReadsAs (Change.drop name).IsReadAs (Generator.mysql.dropTable name) := by
  refine ⟨⟨'D', _, rfl, by decide⟩, fun rest => ⟨_, ?_, rfl⟩⟩
  have hbody : Passes (' ' :: Generator.mysql.quoteIdentifier name) := hname.plain_cons (by decide)
  have hwords := keywords_append "drop table" "DROP".toList "TABLE".toList rfl (by decide)
    (by decide) (by decide)
    (wordEnds_space (Generator.mysql.quoteIdentifier name ++ ';' :: rest))
  have hread : dropTable ("DROP TABLE".toList ++
      (' ' :: Generator.mysql.quoteIdentifier name ++ ';' :: rest)) =
        .ok (.dropTable (' ' :: Generator.mysql.quoteIdentifier name)) rest :=
    (bind_of_ok hwords _).trans (bind_of_ok (verbatimEnd_append hbody rest) _)
  have hshape : Generator.mysql.dropTable name ++ rest =
      "DROP TABLE".toList ++ (' ' :: Generator.mysql.quoteIdentifier name ++ ';' :: rest) := by
    unfold Generator.dropTable
    simp only [List.append_assoc]
    rfl
  rw [hshape]
  exact firstOf_of_ledBy ledBy_statements 3 rfl "DROP TABLE".toList (by decide) hread

theorem readsAs_drop {name : Text} (hlacks : backtick ∉ name) (hslash : '\\' ∉ name) :
    ReadsAs (Change.drop name).IsReadAs (Generator.mysql.dropTable name) :=
  readsAs_drop_of_passes (passes_quotedWith hlacks hslash)

/-- A clause is passed over. -/
theorem passes_clause {c : Clause} (hc : c.Quiet) : Passes (Generator.mysql.clause c) := by
  cases c with
  | addField f =>
      exact Passes.plain_append (t := "ADD COLUMN ".toList) (by decide)
        (passes_field hc.1 hc.2.1 hc.2.2)
  | dropField name =>
      exact Passes.plain_append (t := "DROP COLUMN ".toList) (by decide)
        (passes_quotedWith hc.1 hc.2)
  | alterField f =>
      exact Passes.plain_append (t := "CHANGE COLUMN ".toList) (by decide)
        (passes_field hc.1 hc.2.1 hc.2.2)
  | dropIndex i =>
      have hleading : backtick ∉ i.leading ∧ '\\' ∉ i.leading := by
        rw [Index.leading]
        cases hcolumns : i.columns with
        | nil => exact ⟨List.not_mem_nil, List.not_mem_nil⟩
        | cons c cs =>
            have hmem : c ∈ i.columns := by simp [hcolumns]
            exact ⟨hc.1.columns c hmem, hc.2.columns c hmem⟩
      have hname : backtick ∉ i.name.getD i.leading ∧ '\\' ∉ i.name.getD i.leading := by
        cases hn : i.name with
        | none => exact hleading
        | some n => exact ⟨hc.1.name n hn, hc.2.name n hn⟩
      change Passes (if i.primary then "DROP PRIMARY KEY".toList else
        "DROP INDEX ".toList ++ Generator.mysql.quoteIdentifier (i.name.getD i.leading))
      split
      · exact passes_plain (by decide)
      · exact Passes.plain_append (by decide) (passes_quotedWith hname.1 hname.2)
  | addIndex i =>
      exact Passes.plain_append (t := "ADD ".toList) (by decide) (passes_index hc.1 hc.2)

/-- A table is altered if the clauses are passed over. -/
theorem readsAs_alter_of_passes {name : Text} {clauses : List Clause} (hne : name ≠ [])
    (hlacks : backtick ∉ name) (hclauses : ∀ c ∈ clauses, Passes (Generator.mysql.clause c)) :
    ReadsAs (Change.alter name clauses).IsReadAs (Generator.mysql.alterTable name clauses) := by
  refine ⟨⟨'A', _, rfl, by decide⟩, fun rest => ⟨_, ?_, rfl⟩⟩
  let body : Text := ' ' :: Text.joinWith ",\n  ".toList (clauses.map Generator.mysql.clause)
  have hlist : Passes
      (Text.joinWith [',', '\n', ' ', ' '] (clauses.map Generator.mysql.clause)) := by
    refine Passes.joinWith (by decide) fun t ht => ?_
    obtain ⟨c, hc, rfl⟩ := List.mem_map.1 ht
    exact hclauses c hc
  have hbody : Passes body := hlist.plain_cons (by decide)
  have hwords := keywords_append "alter table" "ALTER".toList "TABLE".toList rfl (by decide)
    (by decide) (by decide) (wordEnds_space (Text.quotedWith backtick name ++ (body ++ ';' :: rest)))
  have hread : alterTable ("ALTER TABLE".toList ++
      ' ' :: (Text.quotedWith backtick name ++ (body ++ ';' :: rest))) =
        .ok (.alterTable (Text.quotedWith backtick name) body) rest := by
    refine (bind_of_ok hwords _).trans ?_
    refine (bind_of_ok (gap1_space (quotedWith_solid name _)) _).trans ?_
    refine (bind_of_ok (identifier_quotedWith hne hlacks _) _).trans ?_
    exact bind_of_ok (verbatimEnd_append hbody rest) _
  have hshape : Generator.mysql.alterTable name clauses ++ rest = "ALTER TABLE".toList ++
      ' ' :: (Text.quotedWith backtick name ++ (body ++ ';' :: rest)) := by
    unfold Generator.alterTable
    simp only [List.append_assoc]
    rfl
  rw [hshape]
  exact firstOf_of_ledBy ledBy_statements 6 rfl "ALTER TABLE".toList (by decide) hread

theorem readsAs_alter {name : Text} {clauses : List Clause} (hne : name ≠ [])
    (hlacks : backtick ∉ name) (hclauses : ∀ c ∈ clauses, c.Quiet) :
    ReadsAs (Change.alter name clauses).IsReadAs (Generator.mysql.alterTable name clauses) :=
  readsAs_alter_of_passes hne hlacks fun c hc => passes_clause (hclauses c hc)

theorem readsAs_create {t : SchemaDelta.Table} (ht : t.WellFormed)
    (hne : t.fields ≠ [] ∨ t.declared ≠ []) (hplain : t.Plain)
    (hdashes : ∀ f ∈ t.fields, ∀ q ∈ f.qualifiers, q.LacksDashes) :
    ReadsAs (Change.create t).IsReadAs (Generator.mysql.createTable t) := by
  have hitems := Table.items_ne_nil hne
  refine ⟨?_, fun rest => ?_⟩
  · obtain ⟨u, hu⟩ := exists_createTable_eq hitems []
    rw [List.append_nil] at hu
    exact ⟨'C', _, hu, by decide⟩
  · obtain ⟨u, hu⟩ := exists_createTable_eq hitems rest
    have hnot := not_runsOn_of_forall_lacksDashes ht hdashes rest
    obtain ⟨T, hread, hmeaning⟩ := createTable_append ht hitems hplain hnot
    rw [hu] at hread
    rw [hu]
    exact ⟨.createTable T, statement_createTable hread, T, rfl, hmeaning⟩

end Source

/-! ### The script of a delta -/

namespace Delta

open Source

section Between

variable {before after : Schema} (hb : ∀ t ∈ before.tables, t.Plain ∧ t.Quiet)
  (ha : ∀ t ∈ after.tables, t.WellFormed ∧ t.Plain ∧ t.Quiet)

include hb ha

/-- An altered table is one of the later schema, and its clauses are passed over. -/
theorem quiet_of_mem_alters {o : Options} {a : Text × List Clause}
    (hmem : a ∈ (between before after o).alters) :
    a.1 ≠ [] ∧ backtick ∉ a.1 ∧ ∀ c ∈ a.2, c.Quiet := by
  rw [alters_between] at hmem
  obtain ⟨n, -, hn⟩ := List.mem_filterMap.1 hmem
  obtain ⟨clauses, hclauses, rfl⟩ := Option.map_eq_some_iff.1 hn
  obtain ⟨b, hbefore, hrest⟩ := Option.bind_eq_some_iff.1 hclauses
  obtain ⟨t, hafter, hif⟩ := Option.bind_eq_some_iff.1 hrest
  obtain ⟨ht, rfl⟩ := mem_and_name_of_lastNamed? hafter
  have ht := ha t ht
  have hb := hb b (mem_and_name_of_lastNamed? hbefore).1
  have hcs : b.clausesTo t o = clauses := by
    simp only at hif
    split at hif
    · cases hif
    · exact Option.some.inj hif
  exact ⟨ht.1.name_ne_nil, ht.2.1.name, hcs ▸ Table.quiet_of_mem_clausesTo hb ht o⟩

/-- **Every change of a delta is read** whatever stands behind it. -/
theorem readsAs_change {o : Options}
    (hne : ∀ t ∈ (between before after o).creates, t.fields ≠ [] ∨ t.declared ≠ []) :
    ∀ c ∈ (between before after o).changes, ReadsAs c.IsReadAs (Generator.mysql.change c) := by
  intro c hc
  simp only [changes, List.mem_append, List.mem_singleton, List.mem_map] at hc
  -- created and altered tables are those of the later schema, dropped ones of the earlier
  rcases hc with (((rfl | ⟨t, ht, rfl⟩) | ⟨a, hmem, rfl⟩) | ⟨name, hname, rfl⟩) | rfl
  · exact readsAs_checks false
  · have htable := ha t (List.mem_of_mem_filter ht)
    exact readsAs_create htable.1 (hne t ht) htable.2.1
      fun f hf => (htable.2.2.fields f hf).qualifiers
  · obtain ⟨hname, hlacks, hclauses⟩ := quiet_of_mem_alters hb ha hmem
    exact readsAs_alter hname hlacks hclauses
  · obtain ⟨t, ht, rfl⟩ := List.mem_map.1 (List.mem_of_mem_filter hname)
    exact readsAs_drop (hb t ht).1.name (hb t ht).2.name
  · exact readsAs_checks true

end Between

/-- **The script of a delta is read statement by statement**: what stands inside of the transaction
is read as the changes, one for one and in their order, in which the altered tables ascend. -/
theorem script_framed {source : Text} {before after : Schema}
    (hafter : Schema.read source .mysql = .ok after)
    (hb : ∀ t ∈ before.tables, t.Plain ∧ t.Quiet) (ha : ∀ t ∈ after.tables, t.Plain ∧ t.Quiet)
    (o : Options)
    (hne : ∀ t ∈ (between before after o).creates, t.fields ≠ [] ∨ t.declared ≠ []) :
    ∃ inner statements,
      Generator.mysql.script (between before after o) =
        "BEGIN;\n\n".toList ++ inner ++ "\n\nCOMMIT;\n".toList ∧
      Source.read inner = .ok statements ∧
      List.Forall₂ Change.IsReadAs (between before after o).changes statements ∧
      statements.length = (between before after o).statementCount + 2 ∧
      ((between before after o).alters.map Prod.fst).Pairwise (· < ·) := by
  have hwell : ∀ t ∈ after.tables, t.WellFormed ∧ t.Plain ∧ t.Quiet :=
    fun t ht => ⟨Schema.wellFormed_of_read hafter t ht, ha t ht⟩
  obtain ⟨ss, hss, hall⟩ := readStatements_joinWith (readsAs_change hb hwell hne)
  refine ⟨_, ss, Generator.script_eq Generator.mysql _, ?_, hall, ?_, pairwise_alters_between _ _ _⟩
  · have hsep : "\n\n".toList = ['\n', '\n'] := rfl
    rw [Source.read, hsep, hss]
  · rw [← hall.length_eq, length_changes]

/-- A schema with a table that goes and one that stays. -/
def sampleBefore : Schema :=
  ⟨[.createTable
      { name := ['a'], declared := [{ columns := [['b']], name := some ['k'] }],
        fields := [{ name := ['b'], type := "int".toList, args := [], qualifiers := [] },
                   { name := ['c'], type := "int".toList, args := [],
                     qualifiers := [.default (.text "--;".toList)] }] },
    .createTable
      { name := ['d'], declared := [],
        fields := [{ name := ['e'], type := "int".toList, args := [], qualifiers := [] }] }]⟩

/-- A schema with the table that stays and a new one. -/
def sampleAfter : Schema :=
  ⟨[.createTable
      { name := ['a'], declared := [],
        fields := [{ name := ['b'], type := "enum".toList, args := ["'x;'".toList, "'/*'".toList],
                     qualifiers := [.default (.text "it's;".toList), .uniqueKey] }] },
    .createTable
      { name := ['f'], declared := [],
        fields := [{ name := ['g'], type := "bit".toList, args := ["1".toList],
                     qualifiers := [.default (.bits 0)] }] }]⟩

/-- A table is created, one is altered and one is dropped, with semicolons and openings of comments
in strings. -/
theorem script_framed_sample :
    ∃ inner statements,
      Generator.mysql.script (between sampleBefore sampleAfter .skipUnchanged) =
        "BEGIN;\n\n".toList ++ inner ++ "\n\nCOMMIT;\n".toList ∧
      Source.read inner = .ok statements ∧ statements.length = 5 := by
  have hafter : Schema.read ("CREATE TABLE a (b ENUM('x;', '/*') DEFAULT 'it''s;' UNIQUE);" ++
      "CREATE TABLE f (g BIT(1) DEFAULT b'0');").toList .mysql = .ok sampleAfter :=
    Schema.read_of_toOption (by decide +kernel)
  obtain ⟨inner, statements, hscript, hread, -, hlength, -⟩ :=
    script_framed hafter (show ∀ t ∈ sampleBefore.tables, t.Plain ∧ t.Quiet by decide) (by decide)
      .skipUnchanged (by decide)
  exact ⟨inner, statements, hscript, hread, hlength⟩

end Delta

end SchemaDelta
