/-
**Indices are read back.**

Every index that was read is of one of the five kinds, which are written with the words that
introduce them.  A name, a storage method and the columns follow, each recognised by its first
character: a backtick, the word `USING` or a parenthesis.

Main definitions:

* `SchemaDelta.Index.WellFormed` — the indices that a schema which was read can have;
* `SchemaDelta.Index.Plain` — the indices that can be written without loss.

Main results:

* `SchemaDelta.Source.yields_indexDefinition` — what is read as an index is well formed;
* `SchemaDelta.Source.indexBody_append` — what follows the words of an index is read back;
* `SchemaDelta.Source.indexDefinition_append` — **indices are read back**.
-/

import SchemaDelta.Proofs.Column

set_option relaxedAutoImplicit false
set_option autoImplicit false

namespace SchemaDelta

/-! ### Indices that can be read and written -/

/-- The index has the properties of one kind, and no others. -/
structure Index.IsOfKind (i : Index) (kind : Source.IndexKind) : Prop where
  primary : i.primary = (kind == .primary)
  unique : i.unique = (kind == .unique)
  fulltext : i.fulltext = (kind == .fulltext)
  spatial : i.spatial = (kind == .spatial)

/-- The indices that a schema which was read can have. -/
structure Index.WellFormed (i : Index) : Prop where
  columns_ne_nil : i.columns ≠ []
  column_ne_nil : ∀ c ∈ i.columns, c ≠ []
  name_ne_nil : ∀ n ∈ i.name, n ≠ []
  kind : ∃ kind, i.IsOfKind kind ∧ (kind = .primary → i.name = none)

/-- The indices that can be written without loss: no name has the quote that is put around it. -/
structure Index.Plain (i : Index) : Prop where
  name : ∀ n ∈ i.name, backtick ∉ n
  columns : ∀ c ∈ i.columns, backtick ∉ c

instance : DecidablePred Index.Plain := fun i =>
  decidable_of_iff ((∀ n ∈ i.name, backtick ∉ n) ∧ ∀ c ∈ i.columns, backtick ∉ c)
    ⟨fun h => ⟨h.1, h.2⟩, fun h => ⟨h.name, h.columns⟩⟩

theorem Index.WellFormed.name_quotable {i : Index} (h : i.WellFormed) (hplain : i.Plain) :
    ∀ n ∈ i.name, n ≠ [] ∧ backtick ∉ n :=
  fun n hn => ⟨h.name_ne_nil n hn, hplain.name n hn⟩

theorem Index.WellFormed.columns_quotable {i : Index} (h : i.WellFormed) (hplain : i.Plain) :
    ∀ c ∈ i.columns, c ≠ [] ∧ backtick ∉ c :=
  fun c hc => ⟨h.column_ne_nil c hc, hplain.columns c hc⟩

namespace Source

open Rule Lexeme

variable {s rest : Text}

/-! ### What is read as an index -/

/-- What follows the words of an index has columns, and a name only where one may stand. -/
def Index.HasBody (kind : IndexKind) (named : Bool) (i : Index) : Prop :=
  i.kind = kind ∧ (named = false → i.name = none) ∧ (∀ n ∈ i.name, Text.unquote n ≠ []) ∧
    i.columns ≠ [] ∧ ∀ c ∈ i.columns, Text.unquote c ≠ []

theorem yields_indexColumns :
    indexColumns.Yields fun cs => cs ≠ [] ∧ ∀ c ∈ cs, Text.unquote c ≠ [] := by
  have hcolumn : indexColumn.Yields fun c => Text.unquote c ≠ [] :=
    yields_identifier.bind fun c hc => yields_bind fun _ => yields_bind fun _ => yields_pure hc
  exact yields_bind fun _ => yields_bind fun _ => (yields_sepBy1 hcolumn).bind fun cs hcs =>
    yields_bind fun _ => yields_bind fun _ => yields_pure hcs

/-- The name of an index, where one may stand. -/
def optionalName : Bool → Rule (Option Text)
  | false => pure none
  | true => Rule.optional (gap1 *> indexName)

/-- What follows the name of an index. -/
def indexTail (kind : IndexKind) (name : Option Text) : Rule Index := do
  let before ← Rule.optional (gap1 *> indexType)
  gap0
  let columns ← indexColumns
  let after ← Rule.optional (gap1 *> indexType)
  return { kind, name, before, columns, after }

theorem indexBody_eq (kind : IndexKind) (named : Bool) :
    indexBody kind named = optionalName named >>= indexTail kind := by
  cases named <;> rfl

theorem yields_indexBody (kind : IndexKind) (named : Bool) :
    (indexBody kind named).Yields (Index.HasBody kind named) := by
  have hname : (optionalName named).Yields
      fun o => (named = false → o = none) ∧ ∀ n ∈ o, Text.unquote n ≠ [] := by
    cases named with
    | false => exact yields_pure ⟨fun _ => rfl, fun n hn => by cases hn⟩
    | true =>
        have hindexName : indexName.Yields fun n => Text.unquote n ≠ [] :=
          yields_bind fun _ => yields_identifier
        exact (Yields.optional (yields_bind fun _ => hindexName)).imp fun o ho =>
          ⟨nofun, ho⟩
  rw [indexBody_eq]
  refine hname.bind fun o ho => yields_bind fun before => yields_bind fun _ => ?_
  refine yields_indexColumns.bind fun cs hcs => yields_bind fun after => ?_
  exact yields_pure ⟨rfl, ho.1, ho.2, hcs.1, hcs.2⟩

theorem Index.HasBody.wellFormed {kind : IndexKind} {named : Bool} {i : Index}
    (h : i.HasBody kind named) (hnamed : kind = .primary → named = false) :
    i.meaning.WellFormed := by
  obtain ⟨rfl, hnone, hname, hne, hcolumns⟩ := h
  refine ⟨?_, ?_, ?_, ⟨i.kind, ⟨rfl, rfl, rfl, rfl⟩, fun hprimary => ?_⟩⟩
  · simpa [Index.meaning] using hne
  · intro c hc
    obtain ⟨d, hd, rfl⟩ := List.mem_map.1 hc
    exact hcolumns d hd
  · intro n hn
    obtain ⟨m, hm, rfl⟩ := Option.map_eq_some_iff.1 hn
    exact hname m hm
  · rw [Index.meaning, hnone (hnamed hprimary)]
    rfl

/-- **What is read as an index is well formed.** -/
theorem yields_indexDefinition : indexDefinition.Yields fun i => i.meaning.WellFormed := by
  have hbody : ∀ kind named, (kind = .primary → named = false) →
      (indexBody kind named).Yields fun i => i.meaning.WellFormed :=
    fun kind named h => (yields_indexBody kind named).imp fun i hi => hi.wellFormed h
  refine yields_firstOf fun p hp => ?_
  simp only [List.mem_cons, List.not_mem_nil, or_false] at hp
  rcases hp with rfl | rfl | rfl | rfl | rfl
  · exact yields_bind fun _ => yields_bind fun _ => hbody .primary false fun _ => rfl
  · exact yields_bind fun _ => yields_bind fun _ => yields_bind fun _ =>
      hbody .unique true fun h => by cases h
  · exact yields_bind fun _ => yields_bind fun _ => hbody .fulltext true fun h => by cases h
  · exact yields_bind fun _ => yields_bind fun _ => hbody .spatial true fun h => by cases h
  · exact yields_bind fun _ => hbody .plain true fun h => by cases h

/-! ### The parts of an index are read back -/

theorem quotedWith_solid (name rest : Text) : Solid (Text.quotedWith backtick name ++ rest) :=
  solid_of_head (c := backtick) (by decide) _

theorem indexColumn_append {name : Text} (hne : name ≠ []) (hplain : backtick ∉ name)
    (hrest : ItemEnds rest) :
    indexColumn (Text.quotedWith backtick name ++ rest) =
      .ok (Text.quotedWith backtick name) rest := by
  obtain ⟨c, t, hgap, hc⟩ := hrest.noCall
  have hlength : (gap0 *> parenthesized digits1).Refuses rest :=
    refuses_bind_of_ok hgap ((refuses_char hc).bind _)
  have hdirection : (gap1 *> (keyword "asc" <|> keyword "desc")).Refuses rest :=
    (refuses_gap1 hrest.solid).bind _
  rw [indexColumn, bind_of_ok (identifier_quotedWith hne hplain rest), bind_of_ok hlength.optional,
    bind_of_ok hdirection.optional]
  rfl

/-- The columns of an index as they are written. -/
def columnTexts (columns : List Text) : List Text :=
  columns.map (Text.quotedWith backtick)

theorem indexColumns_append {columns : List Text} (hne : columns ≠ [])
    (hcolumn : ∀ c ∈ columns, c ≠ [] ∧ backtick ∉ c) (rest : Text) :
    indexColumns ('(' :: (Text.joinWith ", ".toList (columnTexts columns) ++ ')' :: rest)) =
      .ok (columnTexts columns) rest := by
  obtain ⟨c, cs, rfl⟩ := List.exists_cons_of_ne_nil hne
  have hitem : ∀ t ∈ columnTexts (c :: cs), ∀ rest, ItemEnds rest →
      indexColumn (t ++ rest) = .ok t rest := by
    intro t ht rest hrest
    obtain ⟨d, hd, rfl⟩ := List.mem_map.1 ht
    exact indexColumn_append (hcolumn d hd).1 (hcolumn d hd).2 hrest
  have hsolid : ∀ t ∈ columnTexts (c :: cs), ∀ rest, Solid (t ++ rest) := by
    intro t ht rest
    obtain ⟨d, -, rfl⟩ := List.mem_map.1 ht
    exact quotedWith_solid d rest
  have hlist := commaList_append hitem hsolid rest
  have hfirst : Solid (Text.joinWith [',', ' '] (columnTexts (c :: cs)) ++ ')' :: rest) := by
    rw [columnTexts, List.map_cons, Text.joinWith_cons, List.append_assoc]
    exact quotedWith_solid c _
  exact parenthesized_append [] [] (by simp) hfirst hlist (by simp)

theorem ledBy_indexType :
    indexType.LedBy ["using".toList, "btree".toList, "hash".toList, "rtree".toList] :=
  ((ledBy_keyword "using").bind _).optional_bind (ledBy_firstOf (.cons ((ledBy_keyword _).map _)
    (.cons ((ledBy_keyword _).map _) (.cons ((ledBy_keyword _).map _) .nil))))

theorem indexType_append (m : IndexMethod) (hrest : WordEnds rest) :
    indexType ("USING".toList ++ ' ' :: (m.word.toList ++ rest)) = .ok m rest := by
  have husing := keyword_append "using" "USING".toList (by decide)
    (wordEnds_space (m.word.toList ++ rest))
  have hsolid : Solid (m.word.toList ++ rest) := by
    cases m <;> exact solid_of_head (by decide) _
  have hoptional : Rule.optional (keyword "using" *> gap1)
      ("USING".toList ++ ' ' :: (m.word.toList ++ rest)) = .ok (some ()) (m.word.toList ++ rest) :=
    optional_of_ok ((bind_of_ok husing _).trans (gap1_space hsolid))
  refine (bind_of_ok hoptional _).trans ?_
  have hled : List.Forall₂ LedBy
      [(fun _ => IndexMethod.btree) <$> keyword "btree", (fun _ => .hash) <$> keyword "hash",
        (fun _ => .rtree) <$> keyword "rtree"]
      [["btree".toList], ["hash".toList], ["rtree".toList]] :=
    .cons ((ledBy_keyword _).map _) (.cons ((ledBy_keyword _).map _)
      (.cons ((ledBy_keyword _).map _) .nil))
  cases m with
  | btree =>
      have hread := keyword_append "btree" "BTREE".toList (by decide) hrest
      exact firstOf_of_ledBy hled 0 rfl "BTREE".toList (by decide) (map_eq_ok_iff.2 ⟨_, hread, rfl⟩)
  | hash =>
      have hread := keyword_append "hash" "HASH".toList (by decide) hrest
      exact firstOf_of_ledBy hled 1 rfl "HASH".toList (by decide) (map_eq_ok_iff.2 ⟨_, hread, rfl⟩)
  | rtree =>
      have hread := keyword_append "rtree" "RTREE".toList (by decide) hrest
      exact firstOf_of_ledBy hled 2 rfl "RTREE".toList (by decide) (map_eq_ok_iff.2 ⟨_, hread, rfl⟩)

/-! ### Indices are read back -/

section Body

variable {name : Option Text} {method : Option IndexMethod} {columns : List Text}

/-- The columns of an index with what stands behind them. -/
def columnsText (columns : List Text) (rest : Text) : Text :=
  ' ' :: '(' :: (Text.joinWith ", ".toList (columnTexts columns) ++ ')' :: rest)

/-- What is written after the words of an index. -/
def bodyText (name : Option Text) (method : Option IndexMethod) (columns : List Text)
    (rest : Text) : Text :=
  Generator.mysql.spacedName name ++ (Generator.usingMethod method ++ columnsText columns rest)

theorem usingMethod_append (m : IndexMethod) (t : Text) :
    Generator.usingMethod (some m) ++ t =
      ' ' :: ("USING".toList ++ ' ' :: (m.word.toList ++ t)) := by
  have hsome : Generator.usingMethod (some m) = ' ' :: ("USING".toList ++ ' ' :: m.word.toList) :=
    rfl
  rw [hsome, List.cons_append, List.append_assoc, List.cons_append]

theorem refuses_indexType_columns (columns : List Text) (rest : Text) :
    (gap1 *> indexType).Refuses (columnsText columns rest) :=
  refuses_bind_of_ok (gap1_space (solid_of_head (c := '(') (by decide) _))
    (ledBy_indexType.refuses_cons (c := '(') (by decide) _)

/-- A storage method is no name of an index, and neither is a parenthesis. -/
theorem refuses_indexName (method : Option IndexMethod) (columns : List Text) (rest : Text) :
    (gap1 *> indexName).Refuses (Generator.usingMethod method ++ columnsText columns rest) := by
  cases method with
  | none =>
      have husing : (keyword "using").Refuses ('(' :: (Text.joinWith ", ".toList
          (columnTexts columns) ++ ')' :: rest)) :=
        (ledBy_keyword "using").refuses_cons (by decide) _
      refine refuses_bind_of_ok (gap1_space (solid_of_head (c := '(') (by decide) _)) ?_
      exact refuses_bind_of_ok husing.absent (refuses_identifier (by decide) (by decide) _)
  | some m =>
      have husing := keyword_append "using" "USING".toList (by decide)
        (wordEnds_space (m.word.toList ++ columnsText columns rest))
      rw [usingMethod_append]
      refine refuses_bind_of_ok (gap1_space (solid_of_head (c := 'U') (by decide) _)) ?_
      exact (refuses_absent_of_ok husing).bind _

theorem optionalName_append {named : Bool} (hnamed : named = false → name = none)
    (hname : ∀ n ∈ name, n ≠ [] ∧ backtick ∉ n) (method : Option IndexMethod)
    (columns : List Text) (rest : Text) :
    optionalName named (bodyText name method columns rest) =
      .ok (name.map (Text.quotedWith backtick))
        (Generator.usingMethod method ++ columnsText columns rest) := by
  cases name with
  | none =>
      cases named with
      | false => rfl
      | true => exact (refuses_indexName method columns rest).optional
  | some n =>
      cases named with
      | false => cases hnamed rfl
      | true =>
          obtain ⟨hne, hplain⟩ := hname n rfl
          have husing : (keyword "using").Refuses (Text.quotedWith backtick n ++
              (Generator.usingMethod method ++ columnsText columns rest)) :=
            (ledBy_keyword "using").refuses_cons (c := backtick) (by decide) _
          have hread : indexName (Text.quotedWith backtick n ++
              (Generator.usingMethod method ++ columnsText columns rest)) = .ok _ _ :=
            (bind_of_ok husing.absent _).trans (identifier_quotedWith hne hplain _)
          exact optional_of_ok ((bind_of_ok (gap1_space (quotedWith_solid n _)) _).trans hread)

theorem optionalMethod_append (method : Option IndexMethod) (columns : List Text) (rest : Text) :
    Rule.optional (gap1 *> indexType)
        (Generator.usingMethod method ++ columnsText columns rest) =
      .ok method (columnsText columns rest) := by
  cases method with
  | none => exact (refuses_indexType_columns columns rest).optional
  | some m =>
      have hread := indexType_append m (wordEnds_space ('(' :: (Text.joinWith ", ".toList
        (columnTexts columns) ++ ')' :: rest)))
      have hsolid : Solid ("USING".toList ++ ' ' :: (m.word.toList ++ columnsText columns rest)) :=
        solid_of_head (c := 'U') (by decide) _
      rw [usingMethod_append]
      exact optional_of_ok ((bind_of_ok (gap1_space hsolid) _).trans hread)

/-- **What follows the words of an index is read back.** -/
theorem indexBody_append (kind : IndexKind) {named : Bool} (hnamed : named = false → name = none)
    (hname : ∀ n ∈ name, n ≠ [] ∧ backtick ∉ n) (hne : columns ≠ [])
    (hcolumn : ∀ c ∈ columns, c ≠ [] ∧ backtick ∉ c) (hrest : DefinitionEnds rest) :
    indexBody kind named (bodyText name method columns rest) =
      .ok { kind, name := name.map (Text.quotedWith backtick), before := method,
            columns := columnTexts columns, after := none } rest := by
  have hopen : Solid ('(' :: (Text.joinWith ", ".toList (columnTexts columns) ++ ')' :: rest)) :=
    solid_of_head (by decide) _
  have hgap : gap0 (columnsText columns rest) =
      .ok () ('(' :: (Text.joinWith ", ".toList (columnTexts columns) ++ ')' :: rest)) :=
    gap0_append (w := [' ']) (by decide) hopen
  rw [indexBody_eq, bind_of_ok (optionalName_append hnamed hname method columns rest), indexTail,
    bind_of_ok (optionalMethod_append method columns rest), bind_of_ok hgap,
    bind_of_ok (indexColumns_append hne hcolumn rest),
    bind_of_ok (hrest.refuses ledBy_indexType (by decide)).optional]
  rfl

/-- After the words of an index there is a space, and then no further word for an index. -/
theorem exists_bodyText_eq (name : Option Text) (method : Option IndexMethod)
    (columns : List Text) (rest : Text) :
    ∃ c t, bodyText name method columns rest = ' ' :: c :: t ∧ c ∈ [backtick, 'U', '('] := by
  cases name with
  | some n => exact ⟨backtick, _, rfl, by decide⟩
  | none =>
      cases method with
      | some m => exact ⟨'U', _, rfl, by decide⟩
      | none => exact ⟨'(', _, rfl, by decide⟩

theorem wordEnds_bodyText (name : Option Text) (method : Option IndexMethod)
    (columns : List Text) (rest : Text) : WordEnds (bodyText name method columns rest) := by
  obtain ⟨c, t, heq, -⟩ := exists_bodyText_eq name method columns rest
  rw [heq]
  exact wordEnds_space (c :: t)

theorem indexWord?_bodyText (name : Option Text) (method : Option IndexMethod)
    (columns : List Text) (rest : Text) :
    indexWord? (bodyText name method columns rest) = .ok none (bodyText name method columns rest) := by
  obtain ⟨c, t, heq, hc⟩ := exists_bodyText_eq name method columns rest
  have hled : indexWord.LedBy ["key".toList, "index".toList] :=
    (ledBy_keyword "key").orElse (ledBy_keyword "index")
  have hrefuses : (gap1 *> indexWord).Refuses (' ' :: c :: t) := by
    simp only [List.mem_cons, List.not_mem_nil, or_false] at hc
    rcases hc with rfl | rfl | rfl <;>
      exact refuses_bind_of_ok (gap1_space (solid_of_head (by decide) t))
        (hled.refuses_cons (by decide) t)
  rw [heq]
  exact hrefuses.optional

end Body

/-- The words that each kind of index may start with. -/
def indexWords : List (List Text) :=
  [["constraint".toList, "primary".toList], ["constraint".toList, "unique".toList],
    ["fulltext".toList], ["spatial".toList], ["key".toList, "index".toList]]

theorem ledBy_constraintStart : constraintStart.LedBy ["constraint".toList] :=
  (ledBy_keyword _).bind _

theorem ledBy_indexDefinitions : List.Forall₂ LedBy
    [primaryDefinition, uniqueDefinition, fulltextDefinition, spatialDefinition, plainDefinition]
    indexWords := by
  refine .cons (ledBy_constraintStart.optional_bind ((ledBy_keywords rfl).bind _)) ?_
  refine .cons (ledBy_constraintStart.optional_bind ((ledBy_keyword _).bind _)) ?_
  refine .cons ((ledBy_keyword _).bind _) (.cons ((ledBy_keyword _).bind _) (.cons ?_ .nil))
  exact ((ledBy_keyword "key").orElse (ledBy_keyword "index")).bind _

theorem ledBy_indexDefinition : indexDefinition.LedBy indexWords.flatten :=
  ledBy_firstOf ledBy_indexDefinitions

/-- The words of the five kinds. -/
theorem words_of_isOfKind {i : SchemaDelta.Index} {kind : IndexKind} (h : i.IsOfKind kind) :
    i.words = match kind with
      | .primary => "PRIMARY KEY"
      | .unique => "UNIQUE KEY"
      | .fulltext => "FULLTEXT"
      | .spatial => "SPATIAL"
      | .plain => "KEY" := by
  obtain ⟨hprimary, hunique, hfulltext, hspatial⟩ := h
  cases kind <;> simp [Index.words, hprimary, hunique, hfulltext, hspatial]

/-- What is read between the written parts of an index means the index. -/
theorem meaning_of_isOfKind {i : SchemaDelta.Index} {kind : IndexKind} (h : i.IsOfKind kind)
    (hname : ∀ n ∈ i.name, n ≠ [] ∧ backtick ∉ n)
    (hcolumn : ∀ c ∈ i.columns, c ≠ [] ∧ backtick ∉ c) :
    Index.meaning { kind, name := i.name.map (Text.quotedWith backtick), before := i.method,
                    columns := columnTexts i.columns, after := none } = i := by
  have hnames : (i.name.map (Text.quotedWith backtick)).map Text.unquote = i.name := by
    cases hn : i.name with
    | none => rfl
    | some n =>
        obtain ⟨hne, hplain⟩ := hname n hn
        exact congrArg some (Text.unquote_quotedWith hne hplain)
  have hcolumns : (columnTexts i.columns).map Text.unquote = i.columns := by
    rw [columnTexts, List.map_map]
    calc i.columns.map (Text.unquote ∘ Text.quotedWith backtick) = i.columns.map id :=
          List.map_congr_left fun c hc => Text.unquote_quotedWith (hcolumn c hc).1 (hcolumn c hc).2
      _ = i.columns := List.map_id _
  rw [Index.meaning, hnames, hcolumns, Option.none_or, ← h.primary, ← h.unique, ← h.fulltext,
    ← h.spatial]

theorem index_append (i : SchemaDelta.Index) (rest : Text) :
    Generator.mysql.index i ++ rest =
      i.words.toList ++ bodyText i.name i.method i.columns rest := by
  simp [Generator.index, bodyText, columnsText, columnTexts, Generator.mysql]

/-- **The words of an index tell its kind**: it is read as what follows them is. -/
theorem indexDefinition_eq_ok_iff {i : SchemaDelta.Index} (hi : i.WellFormed) (rest : Text) :
    ∃ kind named, i.IsOfKind kind ∧ (named = false → i.name = none) ∧ ∀ j last,
      indexDefinition (Generator.mysql.index i ++ rest) = .ok j last ↔
        indexBody kind named (bodyText i.name i.method i.columns rest) = .ok j last := by
  obtain ⟨kind, hkind, hprimary⟩ := hi.kind
  have hends := wordEnds_bodyText i.name i.method i.columns rest
  have hnamed : true = false → i.name = none := fun h => by cases h
  rw [index_append, words_of_isOfKind hkind]
  cases kind with
  | primary =>
      -- only a primary key has no room for a name, and it has none
      refine ⟨.primary, false, hkind, fun _ => hprimary rfl, fun j last => ?_⟩
      have hsymbol := ledBy_constraintStart.refuses "PRIMARY KEY".toList (by decide)
        (bodyText i.name i.method i.columns rest)
      have hwords := keywords_append "primary key" "PRIMARY".toList "KEY".toList rfl (by decide)
        (by decide) (by decide) hends
      have hread : primaryDefinition ("PRIMARY KEY".toList ++ _) = _ :=
        (bind_of_ok hsymbol.optional _).trans (bind_of_ok hwords _)
      exact hread ▸ firstOf_eq_ok_iff_of_ledBy ledBy_indexDefinitions 0 rfl
        "PRIMARY KEY".toList (by decide)
  | unique =>
      refine ⟨.unique, true, hkind, hnamed, fun j last => ?_⟩
      have hsymbol := ledBy_constraintStart.refuses "UNIQUE KEY".toList (by decide)
        (bodyText i.name i.method i.columns rest)
      have hwords := keyword_append "unique" "UNIQUE".toList (by decide)
        (wordEnds_space ("KEY".toList ++ bodyText i.name i.method i.columns rest))
      have hread : uniqueDefinition ("UNIQUE KEY".toList ++ _) = _ :=
        (bind_of_ok hsymbol.optional _).trans ((bind_of_ok hwords _).trans
          (bind_of_ok (indexWord?_append hends) _))
      exact hread ▸ firstOf_eq_ok_iff_of_ledBy ledBy_indexDefinitions 1 rfl
        "UNIQUE KEY".toList (by decide)
  | fulltext =>
      refine ⟨.fulltext, true, hkind, hnamed, fun j last => ?_⟩
      have hwords := keyword_append "fulltext" "FULLTEXT".toList (by decide) hends
      have hread : fulltextDefinition ("FULLTEXT".toList ++ _) = _ :=
        (bind_of_ok hwords _).trans (bind_of_ok (indexWord?_bodyText _ _ _ _) _)
      exact hread ▸ firstOf_eq_ok_iff_of_ledBy ledBy_indexDefinitions 2 rfl
        "FULLTEXT".toList (by decide)
  | spatial =>
      refine ⟨.spatial, true, hkind, hnamed, fun j last => ?_⟩
      have hwords := keyword_append "spatial" "SPATIAL".toList (by decide) hends
      have hread : spatialDefinition ("SPATIAL".toList ++ _) = _ :=
        (bind_of_ok hwords _).trans (bind_of_ok (indexWord?_bodyText _ _ _ _) _)
      exact hread ▸ firstOf_eq_ok_iff_of_ledBy ledBy_indexDefinitions 3 rfl
        "SPATIAL".toList (by decide)
  | plain =>
      refine ⟨.plain, true, hkind, hnamed, fun j last => ?_⟩
      have hwords := keyword_append "key" "KEY".toList (by decide) hends
      have hread : plainDefinition ("KEY".toList ++ _) = _ :=
        bind_of_ok (orElse_of_ok hwords (keyword "index")) _
      exact hread ▸ firstOf_eq_ok_iff_of_ledBy ledBy_indexDefinitions 4 rfl
        "KEY".toList (by decide)

/-- **Indices are read back.** -/
theorem indexDefinition_append {i : SchemaDelta.Index} (hi : i.WellFormed) (hplain : i.Plain)
    (hrest : DefinitionEnds rest) :
    ∃ j, indexDefinition (Generator.mysql.index i ++ rest) = .ok j rest ∧ j.meaning = i := by
  obtain ⟨kind, named, hkind, hnamed, hiff⟩ := indexDefinition_eq_ok_iff hi rest
  have hname := hi.name_quotable hplain
  have hcolumn := hi.columns_quotable hplain
  refine ⟨_, (hiff _ rest).2 ?_, meaning_of_isOfKind hkind hname hcolumn⟩
  exact indexBody_append kind hnamed hname hi.columns_ne_nil hcolumn hrest

end Source

end SchemaDelta
