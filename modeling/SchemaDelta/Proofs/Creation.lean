/-
**The creation of a table is read back.**

The definitions of a table stand on a line each, and every one of them is read back in front of the
comma or the closing parenthesis behind it.  What follows the semicolon has no influence, except
that a default of a column may run on into a call, and then another table is read or none.

Main definitions:

* `SchemaDelta.Table.WellFormed` — the tables that a schema which was read can have;
* `SchemaDelta.Table.Plain` — the tables that can be written without loss;
* `SchemaDelta.Table.RunsOn` — a default of a table runs on into a call.

Main results:

* `SchemaDelta.Source.readsBack_definitions` — definitions are read back;
* `SchemaDelta.Source.createTable_append` — **tables are read back**, whatever follows;
* `SchemaDelta.Source.createTable_of_runsOn` — unless a default runs on.
-/

import SchemaDelta.Proofs.Key
import SchemaDelta.Source.Reading

set_option relaxedAutoImplicit false
set_option autoImplicit false

namespace SchemaDelta

/-! ### Tables that can be read and written -/

/-- The tables that a schema which was read can have. -/
structure Table.WellFormed (t : Table) : Prop where
  name_ne_nil : t.name ≠ []
  fields : ∀ f ∈ t.fields, f.WellFormed
  declared : ∀ i ∈ t.declared, i.WellFormed

/-- The tables that can be written without loss: no name has the quote that is put around it, types
are names of ASCII, and character sets and collations are words. -/
structure Table.Plain (t : Table) : Prop where
  name : backtick ∉ t.name
  fields : ∀ f ∈ t.fields, f.Plain
  declared : ∀ i ∈ t.declared, i.Plain

instance : DecidablePred Table.Plain := fun t =>
  decidable_of_iff
    (backtick ∉ t.name ∧ (∀ f ∈ t.fields, f.Plain) ∧ ∀ i ∈ t.declared, i.Plain)
    ⟨fun h => ⟨h.1, h.2.1, h.2.2⟩, fun h => ⟨h.name, h.fields, h.declared⟩⟩

/-- What stands in the parenthesis of a written table: a column or an index. -/
abbrev Item := Field ⊕ Index

namespace Item

/-- A column or an index as it is written. -/
def text : Item → Text
  | .inl f => Generator.mysql.field f
  | .inr i => Generator.mysql.index i

def WellFormed : Item → Prop
  | .inl f => f.WellFormed
  | .inr i => i.WellFormed

def Plain : Item → Prop
  | .inl f => f.Plain
  | .inr i => i.Plain

/-- The end of the lines of a table: each definition on a line of its own, the closing parenthesis
and the semicolon. -/
def lines (rest : Text) : List Item → Text
  | [] => '\n' :: ')' :: ';' :: rest
  | d :: ds => ',' :: ('\n' :: ' ' :: ' ' :: (text d ++ lines rest ds))

/-- A default of a column runs on, together with the lines below it. -/
def RunsOn (rest : Text) : Item → List Item → Prop
  | .inl f, ds => f.RunsOn (lines rest ds)
  | .inr _, _ => False

theorem lines_eq (rest : Text) (ds : List Item) :
    lines rest ds =
      (ds.map fun d => [' ', ' '] ++ text d).flatMap (fun u => [',', '\n'] ++ u) ++
        (['\n', ')', ';'] ++ rest) := by
  induction ds with
  | nil => rfl
  | cons d ds ih =>
      rw [lines, ih, List.map_cons, List.flatMap_cons]
      simp only [List.append_assoc, List.cons_append, List.nil_append]

theorem definitionEnds_lines (rest : Text) (ds : List Item) :
    Lexeme.DefinitionEnds (lines rest ds) := by
  cases ds with
  | nil => exact .inr ⟨_, rfl⟩
  | cons d ds => exact .inl ⟨',', _, rfl, .inl rfl⟩

end Item

/-- What stands in the parenthesis of a table: its columns and then its declared indices. -/
def Table.items (t : Table) : List Item :=
  t.fields.map .inl ++ t.declared.map .inr

theorem Table.items_ne_nil {t : Table} (h : t.fields ≠ [] ∨ t.declared ≠ []) : t.items ≠ [] := by
  rw [Table.items, Ne, List.append_eq_nil_iff, List.map_eq_nil_iff, List.map_eq_nil_iff, not_and_or]
  exact h

@[simp]
theorem Table.inl_mem_items {t : Table} {f : Field} : .inl f ∈ t.items ↔ f ∈ t.fields := by
  simp [Table.items]

@[simp]
theorem Table.inr_mem_items {t : Table} {i : Index} : .inr i ∈ t.items ↔ i ∈ t.declared := by
  simp [Table.items]

theorem Table.WellFormed.items {t : Table} (h : t.WellFormed) : ∀ e ∈ t.items, e.WellFormed := by
  intro e he
  cases e with
  | inl f => exact h.fields f (inl_mem_items.1 he)
  | inr i => exact h.declared i (inr_mem_items.1 he)

/-- A default of the table runs on into a call, together with what is written behind it. -/
def Table.RunsOn (t : Table) (rest : Text) : Prop :=
  Rule.SomeMarred (Item.RunsOn rest) t.items

namespace Source

open Rule Lexeme

variable {rest : Text}

/-! ### Definitions -/

/-- The column or the index of a definition. -/
def Definition.item? : Definition → Option Item
  | .field f => some (.inl f.meaning)
  | .index i => some (.inr i.meaning)
  | .foreignKey _ => none

theorem ledBy_foreignKeyDefinition :
    foreignKeyDefinition.LedBy ["constraint".toList, "foreign".toList] :=
  (ledBy_constraintStart.optional_bind ((ledBy_keywords rfl).bind _)).matched

/-- What is neither an index nor a foreign key is a column. -/
theorem createDefinition_eq_field {s : Text} (hindex : indexDefinition.Refuses s)
    (hforeign : foreignKeyDefinition.Refuses s) :
    createDefinition s = (.field <$> within .fieldDefinition fieldDefinition) s := by
  rw [createDefinition, firstOf_cons_cons, (hindex.map _).orElse_apply, firstOf_cons_cons,
    (hforeign.map _).orElse_apply, firstOf_singleton]

/-- A definition that starts with the quote of a name is a column. -/
theorem createDefinition_backtick (t : Text) :
    createDefinition (backtick :: t) =
      (.field <$> within .fieldDefinition fieldDefinition) (backtick :: t) :=
  createDefinition_eq_field (ledBy_indexDefinition.refuses_cons (c := backtick) (by decide) t)
    (ledBy_foreignKeyDefinition.refuses_cons (c := backtick) (by decide) t)

theorem field_eq_cons (f : SchemaDelta.Field) (rest : Text) :
    ∃ t, Generator.mysql.field f ++ rest = backtick :: t := by
  refine ⟨(Text.doubled backtick f.name ++ [backtick]) ++ (' ' :: Text.uppercase f.type ++
    Generator.typeArgs f.args ++ Qualifier.texts f.qualifiers) ++ rest, ?_⟩
  simp [Generator.field, Generator.mysql, Text.quotedWith, Qualifier.texts]

/-- **A definition is read back** in front of the lines below it, unless a default runs on. -/
theorem createDefinition_append {d : Item} {ds : List Item} (hd : d.WellFormed) (hplain : d.Plain)
    (hnot : ¬ Item.RunsOn rest d ds) :
    ∃ D, createDefinition (d.text ++ Item.lines rest ds) = .ok D (Item.lines rest ds) ∧
      D.item? = some d := by
  have hends := Item.definitionEnds_lines rest ds
  cases d with
  | inl f =>
      obtain ⟨g, hread, hmeaning⟩ := fieldDefinition_append hd hplain hends hnot
      obtain ⟨t, ht⟩ := field_eq_cons f (Item.lines rest ds)
      have hwithin : within .fieldDefinition fieldDefinition _ = _ := within_eq_ok_iff.2 hread
      refine ⟨.field g, ?_, by rw [Definition.item?, hmeaning]⟩
      rw [Item.text, ht, createDefinition_backtick, ← ht]
      exact map_eq_ok_iff.2 ⟨g, hwithin, rfl⟩
  | inr i =>
      obtain ⟨j, hread, hmeaning⟩ := indexDefinition_append hd hplain hends
      exact ⟨.index j, orElse_of_ok (map_eq_ok_iff.2 ⟨j, hread, rfl⟩) _,
        by rw [Definition.item?, hmeaning]⟩

/-- If a default runs on, another column is read, or none. -/
theorem createDefinition_of_runsOn {d : Item} {ds : List Item} (hd : d.WellFormed)
    (hplain : d.Plain) (hruns : Item.RunsOn rest d ds) :
    ∃ f, d.getLeft? = some f ∧
      ∀ D last, createDefinition (d.text ++ Item.lines rest ds) = .ok D last →
        ∃ g, D.item?.bind Sum.getLeft? = some g ∧ g ≠ f := by
  cases d with
  | inl f =>
      refine ⟨f, rfl, fun D last h => ?_⟩
      obtain ⟨t, ht⟩ := field_eq_cons f (Item.lines rest ds)
      rw [Item.text, ht, createDefinition_backtick, ← ht] at h
      obtain ⟨g, hread, rfl⟩ := map_eq_ok_iff.1 h
      exact ⟨g.meaning, rfl, fieldDefinition_of_runsOn hd hplain
        (Item.definitionEnds_lines rest ds) hruns (within_eq_ok_iff.1 hread)⟩
  | inr i => cases hruns

/-- No gap stands in front of a definition. -/
theorem item_solid (d : Item) (rest : Text) : Solid (d.text ++ rest) := by
  cases d with
  | inl f =>
      obtain ⟨t, ht⟩ := field_eq_cons f rest
      rw [Item.text, ht]
      exact solid_of_head (by decide) t
  | inr i =>
      have hwords : ∀ t, Solid (i.words.toList ++ t) := by
        intro t
        rw [Index.words]
        repeat' split
        all_goals exact solid_of_head (by decide) _
      have hshape : Item.text (.inr i) ++ rest =
          i.words.toList ++ (Generator.mysql.spacedName i.name ++
            (Generator.usingMethod i.method ++ (" (".toList ++
              (Text.joinWith ", ".toList (i.columns.map Generator.mysql.quoteIdentifier) ++
                ([')'] ++ rest))))) := by
        simp only [Item.text, Generator.index, List.append_assoc]
      rw [hshape]
      exact hwords _

/-- **The definitions of a table are read back** from their lines, except for defaults that run
on. -/
theorem readsBack_definitions (rest : Text) :
    ReadsBack (comma *> commit createDefinition) Definition.item? (Item.lines rest)
      (fun d => d.WellFormed ∧ d.Plain) (Item.RunsOn rest) where
  refuses_nil := by
    have hclose : Solid (')' :: ';' :: rest) := solid_of_head (by decide) _
    have hgap : gap0 (Item.lines rest []) = .ok () (')' :: ';' :: rest) :=
      gap0_append (w := ['\n']) (by decide) hclose
    exact (refuses_comma hgap (by decide)).bind _
  read d ds hd hnot := by
    obtain ⟨D, hread, hvalue⟩ := createDefinition_append hd.1 hd.2 hnot
    have hcomma := comma_append (w := ['\n', ' ', ' ']) (by decide)
      (item_solid d (Item.lines rest ds))
    exact ⟨D, (bind_of_ok hcomma _).trans (commit_eq_ok_iff.2 hread), hvalue⟩
  length_lt d ds := by
    simp only [Item.lines, List.length_cons, List.length_append]
    omega

/-- A column whose default runs on is not among the columns that are read. -/
theorem misreads_definitions (rest : Text) :
    Misreads (comma *> commit createDefinition) Definition.item? Sum.getLeft? (Item.lines rest)
      (fun d => d.WellFormed ∧ d.Plain) (Item.RunsOn rest) := by
  intro d ds hd hruns
  obtain ⟨f, hf, hread⟩ := createDefinition_of_runsOn hd.1 hd.2 hruns
  refine ⟨f, hf, fun D last h => hread D last ?_⟩
  have hcomma := comma_append (w := ['\n', ' ', ' ']) (by decide)
    (item_solid d (Item.lines rest ds))
  exact commit_eq_ok_iff.1 ((bind_of_ok hcomma fun _ => commit createDefinition).symm.trans h)

/-! ### Tables -/

variable {t : SchemaDelta.Table} {s : Text}

/-- The text of a table up to its first definition. -/
def headText (name rest : Text) : Text :=
  "CREATE TABLE ".toList ++
    (Text.quotedWith backtick name ++ (' ' :: '(' :: '\n' :: ' ' :: ' ' :: rest))

theorem texts_items (t : SchemaDelta.Table) :
    t.fields.map Generator.mysql.field ++ t.declared.map Generator.mysql.index =
      t.items.map Item.text := by
  rw [Table.items, List.map_append, List.map_map, List.map_map]
  rfl

/-- A table is written with its definitions on lines, the first one after the parenthesis. -/
theorem createTable_eq {d : Item} {ds : List Item} (h : t.items = d :: ds) (rest : Text) :
    Generator.mysql.createTable t ++ rest = headText t.name (d.text ++ Item.lines rest ds) := by
  have hsep : ",\n".toList = [',', '\n'] := rfl
  have hindent : "  ".toList = [' ', ' '] := rfl
  have hopen : " (\n".toList = [' ', '(', '\n'] := rfl
  have hclose : "\n);".toList = ['\n', ')', ';'] := rfl
  unfold Generator.createTable headText
  simp only [texts_items, h, List.map_map, List.map_cons, Text.joinWith_cons, Item.lines_eq, hsep,
    hindent, hopen, hclose, List.append_assoc, List.cons_append, List.nil_append]
  rfl

/-- A table with columns or indices is written with the words for its creation in front. -/
theorem exists_createTable_eq (hne : t.items ≠ []) (rest : Text) :
    ∃ u, Generator.mysql.createTable t ++ rest = "CREATE TABLE ".toList ++ u := by
  obtain ⟨d, ds, hitems⟩ := List.exists_cons_of_ne_nil hne
  exact ⟨_, createTable_eq hitems rest⟩

theorem tableStart_append (h : ∃ t, s = backtick :: t) :
    tableStart ("CREATE TABLE ".toList ++ s) = .ok (false, false) s := by
  obtain ⟨t, rfl⟩ := h
  have hcreate := keyword_append "create" "CREATE".toList (by decide)
    (wordEnds_space ("TABLE".toList ++ ' ' :: backtick :: t))
  have hgap : gap1 (' ' :: ("TABLE".toList ++ ' ' :: backtick :: t)) =
      .ok () ("TABLE".toList ++ ' ' :: backtick :: t) :=
    gap1_space (solid_of_head (c := 'T') (by decide) _)
  have htemporary : (gap1 *> keyword "temporary").Refuses
      (' ' :: ("TABLE".toList ++ ' ' :: backtick :: t)) :=
    refuses_bind_of_ok hgap ((ledBy_keyword "temporary").refuses "TABLE".toList (by decide) _)
  have htable := keyword_append "table" "TABLE".toList (by decide) (wordEnds_space (backtick :: t))
  have hname : gap1 (' ' :: backtick :: t) = .ok () (backtick :: t) :=
    gap1_space (solid_of_head (by decide) t)
  have hifNot : (gap1 *> keywords "if not exists").Refuses (' ' :: backtick :: t) :=
    refuses_bind_of_ok hname ((ledBy_keywords rfl).refuses_cons (c := backtick) (by decide) t)
  refine (bind_of_ok hcreate _).trans ?_
  rw [bind_of_ok htemporary.optional, bind_of_ok hgap, bind_of_ok htable,
    bind_of_ok hifNot.optional, bind_of_ok hname]
  rfl

/-- No option of a table stands in front of the semicolon. -/
theorem refuses_tableOption (rest : Text) : tableOption.Refuses (';' :: rest) := by
  have hdefault : (keyword "default" *> gap1).Refuses (';' :: rest) :=
    ((ledBy_keyword "default").bind _).refuses_cons (by decide) rest
  have hset : (keywords "character set").Refuses (';' :: rest) :=
    (ledBy_keywords rfl).refuses_cons (by decide) rest
  have hname : bareIdentifier.Refuses (';' :: rest) := refuses_span1 (by decide)
  exact refuses_bind_of_ok hdefault.optional ((hset.orElse hname).bind _)

/-- Nor does one behind a gap. -/
theorem refuses_option {s : Text} (hgap : gap0 s = .ok () (';' :: rest)) :
    (optionSeparator *> tableOption).Refuses s := by
  have hcomma : (char ',').Refuses (';' :: rest) := refuses_char (by decide)
  have hseparator : optionSeparator s = .ok () (';' :: rest) :=
    (bind_of_ok hgap _).trans ((bind_of_ok hcomma.optional _).trans (gap0_cons (by decide) rest))
  exact refuses_bind_of_ok hseparator (refuses_tableOption rest)

theorem options_semicolon (rest : Text) :
    Rule.many (optionSeparator *> tableOption) (';' :: rest) = .ok [] (';' :: rest) :=
  (refuses_option (gap0_cons (by decide) rest)).many

theorem statementEnd_append (rest : Text) : statementEnd (';' :: rest) = .ok () rest := by
  have hgap : gap0 (';' :: rest) = .ok () (';' :: rest) := gap0_cons (by decide) rest
  exact (bind_of_ok hgap _).trans (bind_of_ok (char_cons ';' rest) fun _ => pure ())

/-- The definitions of a written table are read up to the line end in front of the parenthesis. -/
theorem createDefinitions_append {d : Item} {ds : List Item}
    (hitems : ∀ e ∈ d :: ds, e.WellFormed ∧ e.Plain)
    (hnot : ¬ SomeMarred (Item.RunsOn rest) (d :: ds)) :
    ∃ Ds, createDefinitions (d.text ++ Item.lines rest ds) = .ok Ds (Item.lines rest []) ∧
      Ds.filterMap Definition.item? = d :: ds := by
  rw [someMarred_cons, not_or] at hnot
  have hd := hitems d List.mem_cons_self
  obtain ⟨D, hread, hvalue⟩ := createDefinition_append hd.1 hd.2 hnot.1
  obtain ⟨Ds, hmany, hvalues⟩ := (readsBack_definitions rest).many
    (fun e he => hitems e (List.mem_cons_of_mem d he)) hnot.2
  refine ⟨D :: Ds, ?_, by rw [List.filterMap_cons, hvalue, hvalues]⟩
  rw [createDefinitions, sepBy1, bind_of_ok (commit_eq_ok_iff.2 hread), bind_of_ok hmany]
  rfl

/-- If a default runs on, the columns that are read are others. -/
theorem createDefinitions_of_runsOn {d : Item} {ds : List Item}
    (hitems : ∀ e ∈ d :: ds, e.WellFormed ∧ e.Plain)
    (hruns : SomeMarred (Item.RunsOn rest) (d :: ds)) {Ds : List Definition} {last : Text}
    (h : createDefinitions (d.text ++ Item.lines rest ds) = .ok Ds last) :
    Ds.filterMap (fun D => D.item?.bind Sum.getLeft?) ≠ (d :: ds).filterMap Sum.getLeft? := by
  have hd := hitems d List.mem_cons_self
  obtain ⟨D, mid, hread, h⟩ := bind_eq_ok_iff.1 h
  obtain ⟨Ds', mid', hmany, hpure⟩ := bind_eq_ok_iff.1 h
  cases hpure
  have hread := commit_eq_ok_iff.1 hread
  intro heq
  -- either the first definition runs on, or one of the lines below it
  by_cases hmarred : Item.RunsOn rest d ds
  · obtain ⟨f, hf, hother⟩ := createDefinition_of_runsOn hd.1 hd.2 hmarred
    obtain ⟨g, hg, hne⟩ := hother D mid hread
    rw [List.filterMap_cons, List.filterMap_cons, hf, hg] at heq
    exact hne (List.cons.inj heq).1
  · obtain ⟨D', hread', hvalue⟩ := createDefinition_append hd.1 hd.2 hmarred
    rw [hread'] at hread
    cases hread
    have hne := (readsBack_definitions rest).many_of_marred (misreads_definitions rest)
      (fun e he => hitems e (List.mem_cons_of_mem d he))
      ((someMarred_cons.1 hruns).resolve_left hmarred) hmany
    rw [List.filterMap_cons, List.filterMap_cons, hvalue, Option.bind_some] at heq
    cases hk : d.getLeft? with
    | none =>
        rw [hk] at heq
        exact hne heq
    | some f =>
        rw [hk] at heq
        exact hne (List.cons.inj heq).2

/-- A parenthesis of definitions is read as that of a table. -/
theorem createTable_headText {name : Text} (hne : name ≠ []) (hname : backtick ∉ name)
    (hsolid : Solid s) {Ds : List Definition}
    (h : createDefinitions s = .ok Ds (Item.lines rest [])) :
    createTable (headText name s) =
      .ok { temporary := false, ifNotExists := false, name := Text.quotedWith backtick name,
            definitions := Ds, options := [] } rest := by
  have hgap : gap0 (' ' :: '(' :: '\n' :: ' ' :: ' ' :: s) =
      .ok () ('(' :: '\n' :: ' ' :: ' ' :: s) :=
    gap0_append (w := [' ']) (by decide) (solid_of_head (by decide) _)
  have hparens := parenthesized_append ['\n', ' ', ' '] ['\n'] (by decide) hsolid h (by decide)
  have hbody : tableBody
      (Text.quotedWith backtick name ++ (' ' :: '(' :: '\n' :: ' ' :: ' ' :: s)) =
        .ok (Text.quotedWith backtick name, Ds, []) rest := by
    refine (bind_of_ok (identifier_quotedWith hne hname _) _).trans ?_
    refine (bind_of_ok hgap _).trans ?_
    refine (bind_of_ok (within_eq_ok_iff.2 hparens) _).trans ?_
    refine (bind_of_ok (options_semicolon rest) _).trans ?_
    exact bind_of_ok (statementEnd_append rest) _
  refine (bind_of_ok (tableStart_append ⟨_, rfl⟩) _).trans ?_
  exact bind_of_ok (commit_eq_ok_iff.2 (within_eq_ok_iff.2 hbody)) _

/-- What is read as a table was read from between its parentheses. -/
theorem exists_of_createTable_headText {name : Text} (hne : name ≠ []) (hname : backtick ∉ name)
    (hsolid : Solid s) {T : Table} {last : Text} (h : createTable (headText name s) = .ok T last) :
    ∃ mid after, createDefinitions s = .ok T.definitions mid ∧ gap0 mid = .ok () (')' :: after) := by
  have hgap : gap0 (' ' :: '(' :: '\n' :: ' ' :: ' ' :: s) =
      .ok () ('(' :: '\n' :: ' ' :: ' ' :: s) :=
    gap0_append (w := [' ']) (by decide) (solid_of_head (by decide) _)
  have hopen : gap0 ('\n' :: ' ' :: ' ' :: s) = .ok () s :=
    gap0_append (w := ['\n', ' ', ' ']) (by decide) hsolid
  have h := (bind_of_ok (tableStart_append ⟨_, rfl⟩) _).symm.trans h
  obtain ⟨body, mid, hbody, hpure⟩ := bind_eq_ok_iff.1 h
  have hbody := within_eq_ok_iff.1 (commit_eq_ok_iff.1 hbody)
  -- the name and the gap are as they were written, and the definitions come next
  have hbody := (bind_of_ok (identifier_quotedWith hne hname _) _).symm.trans hbody
  have hbody := (bind_of_ok hgap _).symm.trans hbody
  obtain ⟨Ds, after, hparens, hbody⟩ := bind_eq_ok_iff.1 hbody
  obtain ⟨options, after', -, hbody⟩ := bind_eq_ok_iff.1 hbody
  obtain ⟨u, after'', -, hvalue⟩ := bind_eq_ok_iff.1 hbody
  have hparens := within_eq_ok_iff.1 hparens
  have hparens := (bind_of_ok (char_cons '(' _) _).symm.trans hparens
  have hparens := (bind_of_ok hopen _).symm.trans hparens
  obtain ⟨Ds', inside, hDs, hclose⟩ := bind_eq_ok_iff.1 hparens
  obtain ⟨u', inside', hend, hclose⟩ := bind_eq_ok_iff.1 hclose
  obtain ⟨c, inside'', hchar, hvalue'⟩ := bind_eq_ok_iff.1 hclose
  have hinside := (char_eq_ok_iff.1 hchar).1
  cases hvalue'
  cases hvalue
  cases hpure
  exact ⟨inside, _, hDs, hinside ▸ hend⟩

/-! ### Tables are read back -/

theorem forall_items (ht : t.WellFormed) (hplain : t.Plain) :
    ∀ e ∈ t.items, e.WellFormed ∧ e.Plain := by
  refine fun e he => ⟨ht.items e he, ?_⟩
  cases e with
  | inl f => exact hplain.fields f (SchemaDelta.Table.inl_mem_items.1 he)
  | inr i => exact hplain.declared i (SchemaDelta.Table.inr_mem_items.1 he)

theorem fields_of_items (t : SchemaDelta.Table) : t.items.filterMap Sum.getLeft? = t.fields := by
  have hfields : ∀ fs : List SchemaDelta.Field,
      (fs.map Sum.inl).filterMap (Sum.getLeft? (β := SchemaDelta.Index)) = fs := by
    intro fs
    rw [List.filterMap_map]
    exact List.filterMap_some
  have hindices : ∀ is : List SchemaDelta.Index,
      (is.map Sum.inr).filterMap (Sum.getLeft? (α := SchemaDelta.Field)) = [] := by
    intro is
    rw [List.filterMap_map]
    exact List.filterMap_eq_nil_iff.2 fun _ _ => rfl
  rw [Table.items, List.filterMap_append, hfields, hindices, List.append_nil]

theorem declared_of_items (t : SchemaDelta.Table) :
    t.items.filterMap Sum.getRight? = t.declared := by
  have hfields : ∀ fs : List SchemaDelta.Field,
      (fs.map Sum.inl).filterMap (Sum.getRight? (β := SchemaDelta.Index)) = [] := by
    intro fs
    rw [List.filterMap_map]
    exact List.filterMap_eq_nil_iff.2 fun _ _ => rfl
  have hindices : ∀ is : List SchemaDelta.Index,
      (is.map Sum.inr).filterMap (Sum.getRight? (α := SchemaDelta.Field)) = is := by
    intro is
    rw [List.filterMap_map]
    exact List.filterMap_some
  rw [Table.items, List.filterMap_append, hfields, hindices, List.nil_append]

/-- The columns and the indices of definitions are those of the items that they mean. -/
theorem fields_eq_filterMap_item (Ds : List Definition) :
    Ds.filterMap Definition.field? = Ds.filterMap fun D => D.item?.bind Sum.getLeft? :=
  List.filterMap_congr fun D _ => by cases D <;> rfl

theorem declared_eq_filterMap_item (Ds : List Definition) :
    Ds.filterMap Definition.index? = Ds.filterMap fun D => D.item?.bind Sum.getRight? :=
  List.filterMap_congr fun D _ => by cases D <;> rfl

/-- A table means what its definitions do. -/
theorem meaning_of_items {T : Table} (hname : Text.unquote T.name = t.name)
    (hitems : T.definitions.filterMap Definition.item? = t.items) : T.meaning = t := by
  have hfields : T.definitions.filterMap Definition.field? = t.fields := by
    rw [fields_eq_filterMap_item, ← List.filterMap_filterMap, hitems, fields_of_items]
  have hdeclared : T.definitions.filterMap Definition.index? = t.declared := by
    rw [declared_eq_filterMap_item, ← List.filterMap_filterMap, hitems, declared_of_items]
  rw [Table.meaning, hname, hfields, hdeclared]

section Table

variable (ht : t.WellFormed) (hne : t.items ≠ []) (hplain : t.Plain)

include ht hne hplain

/-- **Tables are read back** whatever follows, unless a default runs on. -/
theorem createTable_append (hnot : ¬ t.RunsOn rest) :
    ∃ T, createTable (Generator.mysql.createTable t ++ rest) = .ok T rest ∧ T.meaning = t := by
  obtain ⟨d, ds, hitems⟩ := List.exists_cons_of_ne_nil hne
  have hall := forall_items ht hplain
  rw [Table.RunsOn, hitems] at hnot
  rw [hitems] at hall
  obtain ⟨Ds, hread, hvalue⟩ := createDefinitions_append hall hnot
  rw [createTable_eq hitems]
  refine ⟨_, createTable_headText ht.name_ne_nil hplain.name (item_solid d _) hread, ?_⟩
  exact meaning_of_items (Text.unquote_quotedWith ht.name_ne_nil hplain.name)
    (hvalue.trans hitems.symm)

/-- **If a default runs on**, another table is read, or none. -/
theorem createTable_of_runsOn (hruns : t.RunsOn rest) {T : Table} {last : Text}
    (h : createTable (Generator.mysql.createTable t ++ rest) = .ok T last) : T.meaning ≠ t := by
  obtain ⟨d, ds, hitems⟩ := List.exists_cons_of_ne_nil hne
  have hall := forall_items ht hplain
  rw [Table.RunsOn, hitems] at hruns
  rw [hitems] at hall
  rw [createTable_eq hitems] at h
  obtain ⟨mid, -, hDs, -⟩ :=
    exists_of_createTable_headText ht.name_ne_nil hplain.name (item_solid d _) h
  have hother := createDefinitions_of_runsOn hall hruns hDs
  rw [← fields_eq_filterMap_item, ← hitems, fields_of_items] at hother
  exact fun hmeaning => hother (congrArg SchemaDelta.Table.fields hmeaning)

end Table

/-- A table without two dashes in a default does not run on. -/
theorem not_runsOn_of_forall_lacksDashes (ht : t.WellFormed)
    (hdashes : ∀ f ∈ t.fields, ∀ q ∈ f.qualifiers, q.LacksDashes) (rest : Text) :
    ¬ t.RunsOn rest := by
  rintro ⟨front, d, back, hitems, hruns⟩
  cases d with
  | inl f =>
      have hitem : Sum.inl f ∈ t.items := by simp [hitems]
      have hf : f ∈ t.fields := SchemaDelta.Table.inl_mem_items.1 hitem
      exact not_runsOn_of_lacksDashes (ht.fields f hf) (hdashes f hf)
        (Item.definitionEnds_lines rest back) hruns
  | inr i => exact hruns

end Source

end SchemaDelta
