/-
**What is left out of a table makes no difference.**

A written table may have other things put in: it may be temporary or leave an existing table
alone, its types may be signed, unsigned, filled with zeros or binary, its columns may have
comments, values that they take when their row changes and references to other tables, there may be
foreign keys among its definitions and options behind the parenthesis.  It is read as the same
table, with one exception: where a line feed in a string ends the comment that a default with two
dashes has opened, the string may go on with the call that completes the default to the time of the
change.

Main definitions:

* `SchemaDelta.Decorated.Table.RunsOn` — a default is completed by what stands behind it.

Main results:

* `SchemaDelta.Schema.read_decorated` — **what is left out makes no difference** where no default
  runs on;
* `SchemaDelta.Schema.exists_decorated_not_read` — a comment that completes a default.
-/

import SchemaDelta.Proofs.Respacing

set_option relaxedAutoImplicit false
set_option autoImplicit false

namespace SchemaDelta

namespace Decorated

open Text

/-- A default of the table is completed by what stands behind it in the text. -/
def Table.RunsOn (d : Table) : Prop :=
  ∃ f ∈ d.table.fields, ∃ raw, .default (.unclassified raw) ∈ f.qualifiers ∧ RunsOnIn d.text raw

/-- A table with what is left out of it is read as the table, if no default runs on. -/
theorem read_of_not_runsOn {d : Table} (hwell : d.table.WellFormed) (hplain : d.table.Plain)
    (hnot : ¬ d.RunsOn) : Schema.read d.text .mysql = .ok ⟨[.createTable d.table]⟩ := by
  have hintact : TableIntact (fun s u => s = u ∧ Respaces s s d.text d.text) d.table :=
    fun f hf raw hraw => intact_of_not_runsOnIn fun hruns => hnot ⟨f, hf, raw, hraw, hruns⟩
  have hread := read_of_alignment (alignment_rest d.text) hwell (hplain.legible hwell)
    (.inr fun _ _ h => h.1) hintact ⟨rfl, .refl⟩
  rwa [hplain.reread_eq hwell] at hread

end Decorated

namespace Schema

open Decorated

/-- **What is left out of a table makes no difference**: with anything of it put in, a written table
is read as the same table, if no default runs on. -/
theorem read_decorated {source : Text} {s : Schema} {d : Decorated.Table}
    (hs : Schema.read source .mysql = .ok s) (ht : d.table ∈ s.tables)
    (hne : d.table.fields ≠ [] ∨ d.table.declared ≠ []) (hplain : d.table.Plain)
    (hnot : ¬ d.RunsOn) :
    Schema.read d.text .mysql = .ok ⟨[.createTable d.table]⟩ ∧
      (¬ (Decorated.Table.plain d.table (Table.items_ne_nil hne)).RunsOn →
        Schema.read d.text .mysql = Schema.read (Generator.mysql.createTable d.table) .mysql) := by
  have hwell := wellFormed_of_read hs d.table ht
  have hread := read_of_not_runsOn hwell hplain hnot
  refine ⟨hread, fun hnot' => ?_⟩
  -- the table without anything put in is a case of its own
  have hread' := read_of_not_runsOn (d := .plain d.table _) hwell hplain hnot'
  rw [Decorated.Table.text_plain] at hread'
  exact hread.trans hread'.symm

/-- A table with a column and an index. -/
def decoratedTable : SchemaDelta.Table where
  name := ['t']
  fields := [{ name := ['a'], type := "int".toList, args := [],
               qualifiers := [.default (.unclassified ['5']), .notNull] }]
  declared := [{ columns := [['a']] }]

/-- A foreign key from its column. -/
def decoratedKey : ForeignKey where
  constraint := some (some ['c'])
  name := none
  columns := [['a']]
  reference := {
    table := ['u']
    columns := [['b']]
    options := [.matchFull, .onDelete .setDefault]
    table_isName := .bare (by decide) (by decide)
    columns_ne_nil := by decide
    columns_isName := by simpa using IsName.bare (by decide) (by decide) }
  symbol_quotable := by decide
  name_quotable := by decide
  columns_ne_nil := by decide
  columns_isName := by simpa using IsName.bare (by decide) (by decide)

/-- The table with one of everything that is left out. -/
def decoratedSample : Decorated.Table where
  temporary := true
  ifNotExists := true
  table := decoratedTable
  lines := [
    ⟨['\n'], .foreignKey decoratedKey, by decide⟩,
    ⟨['\n'], .column {
      field := decoratedTable.fields[0]
      typeWords := [.unsigned, .zerofill]
      parts := [.comment ⟨singleQuote, "DEFAULT 6".toList, .inl rfl, by decide⟩,
        .kept (.default (.unclassified ['5'])), .onUpdate .now, .kept .notNull,
        .references decoratedKey.reference]
      parts_kept := rfl }, by decide⟩,
    ⟨['\n'], .index { columns := [['a']] }, by decide⟩]
  options := [
    ⟨"ENGINE".toList, .word "InnoDB".toList (by decide) (by decide), by decide, by decide⟩,
    ⟨"COMMENT".toList, .string ⟨doubleQuote, "); --".toList, .inr rfl, by decide⟩, by decide,
      by decide⟩]
  lines_ne_nil := by decide
  lines_kept := rfl

theorem read_decorated_sample :
    Schema.read ("CREATE TEMPORARY TABLE IF NOT EXISTS `t` (\n" ++
      "CONSTRAINT `c` FOREIGN KEY (a) REFERENCES u (b) MATCH FULL ON DELETE SET DEFAULT,\n" ++
      "`a` INT UNSIGNED ZEROFILL COMMENT 'DEFAULT 6' DEFAULT 5 ON UPDATE NOW() NOT NULL " ++
      "REFERENCES u (b) MATCH FULL ON DELETE SET DEFAULT,\nKEY (`a`)\n) " ++
      "ENGINE=InnoDB COMMENT=\"); --\";").toList .mysql = .ok ⟨[.createTable decoratedTable]⟩ := by
  have hs : Schema.read "CREATE TABLE t (a INT DEFAULT 5 NOT NULL, KEY (a));".toList .mysql =
      .ok ⟨[.createTable decoratedTable]⟩ :=
    read_of_toOption (by decide +kernel)
  have hnot : ¬ decoratedSample.RunsOn := by
    rintro ⟨f, hf, raw, hraw, u, -, -, htime⟩
    obtain rfl : f = _ := List.mem_singleton.1 hf
    obtain rfl : raw = ['5'] := by simpa [decoratedTable] using hraw
    exact Source.not_readsAsTime_cons (c := '5') (by decide) u htime
  have hread := (read_decorated hs (List.mem_singleton.2 rfl) (by decide) (by decide) hnot).1
  refine Eq.trans (congrArg (fun u => Schema.read u .mysql) ?_) hread
  decide +kernel

/-- The table whose default opens a comment. -/
def openingTable : SchemaDelta.Table where
  name := ['t']
  fields := [{ name := ['a'], type := "int".toList, args := [],
               qualifiers := [.default (.unclassified "now--x".toList)] }]
  declared := []

/-- The table with a comment on its column that ends the one of the default. -/
def openingSample : Decorated.Table where
  temporary := false
  ifNotExists := false
  table := openingTable
  lines := [⟨"\n  ".toList, .column {
    field := openingTable.fields[0]
    typeWords := []
    parts := [.kept (.default (.unclassified "now--x".toList)),
      .comment ⟨singleQuote, "\n()".toList, .inl rfl, by decide⟩]
    parts_kept := rfl }, by decide⟩]
  options := []
  lines_ne_nil := by decide
  lines_kept := rfl

/-- **A comment on a column may complete its default**, so that the table is not read. -/
theorem exists_decorated_not_read :
    ∃ (d : Decorated.Table) (s : Schema), d.table.fields ≠ [] ∧ d.table.Plain ∧ d.table ∈ s.tables ∧
      Schema.read (Generator.mysql.createTable d.table) .mysql = .ok s ∧
        ∀ s', Schema.read d.text .mysql ≠ .ok s' := by
  have hs : Schema.read (Generator.mysql.createTable openingTable) .mysql =
      .ok ⟨[.createTable openingTable]⟩ :=
    read_of_toOption (by decide +kernel)
  have hnone : (Schema.read openingSample.text .mysql).toOption = none := by
    decide +kernel
  refine ⟨openingSample, _, by decide, by decide, List.mem_singleton.2 rfl, hs, fun s' h => ?_⟩
  rw [h] at hnone
  cases hnone

end Schema

end SchemaDelta
