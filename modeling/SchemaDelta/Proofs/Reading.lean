/-
**Statements are read one after the other.**

The first word of a statement tells its kind, except that the creations of tables and of databases
have theirs in common.  A schema is read when each of its statements is, so that what is known about
every statement is known about the schema: all of its tables are well formed.

Main definitions:

* `SchemaDelta.Source.ReadsAs` — a text is read as a statement, whatever follows.

Main results:

* `SchemaDelta.Source.yields_createTable` — what is read as a table is well formed;
* `SchemaDelta.Schema.wellFormed_of_read` — **so are the tables of a schema that was read**;
* `SchemaDelta.Source.statement_createTable` — the creation of a table is a statement;
* `SchemaDelta.Source.readStatements_append`, `SchemaDelta.Source.readStatements_joinWith` — **a
  sequence of statements is read** with white space between them.
-/

import SchemaDelta.Proofs.Creation

set_option relaxedAutoImplicit false
set_option autoImplicit false

namespace SchemaDelta

namespace Source

open Rule Lexeme

variable {s u w rest last : Text}

/-! ### What is read as a table -/

theorem yields_createDefinition :
    createDefinition.Yields fun D => ∀ d ∈ D.item?, d.WellFormed := by
  refine yields_firstOf fun p hp => ?_
  simp only [List.mem_cons, List.not_mem_nil, or_false] at hp
  rcases hp with rfl | rfl | rfl
  · refine yields_indexDefinition.map fun i hi d hd => ?_
    cases hd
    exact hi
  · refine (yields_true _).map fun k _ d hd => ?_
    cases hd
  · refine (yields_fieldDefinition.within _).map fun f hf d hd => ?_
    cases hd
    exact hf

/-- The definitions of a table mean well-formed columns and indices. -/
theorem wellFormed_of_definitions {T : Table} (hname : Text.unquote T.name ≠ [])
    (hdefinitions : ∀ D ∈ T.definitions, ∀ d ∈ D.item?, d.WellFormed) : T.meaning.WellFormed := by
  refine ⟨hname, fun f hf => ?_, fun i hi => ?_⟩
  · obtain ⟨D, hD, hDf⟩ := List.mem_filterMap.1 hf
    cases D with
    | index i => cases hDf
    | foreignKey k => cases hDf
    | field g =>
        cases hDf
        exact hdefinitions _ hD _ rfl
  · obtain ⟨D, hD, hDi⟩ := List.mem_filterMap.1 hi
    cases D with
    | index j =>
        cases hDi
        exact hdefinitions _ hD _ rfl
    | foreignKey k => cases hDi
    | field g => cases hDi

/-- **What is read as a table is well formed.** -/
theorem yields_createTable : createTable.Yields fun T => T.meaning.WellFormed := by
  have hparens : (parenthesized createDefinitions).Yields
      fun Ds => ∀ D ∈ Ds, ∀ d ∈ D.item?, d.WellFormed :=
    yields_bind fun _ => yields_bind fun _ =>
      (yields_sepBy1 yields_createDefinition.commit).bind fun Ds hDs =>
        yields_bind fun _ => yields_bind fun _ => yields_pure hDs.2
  have hbody : tableBody.Yields fun body =>
      Text.unquote body.1 ≠ [] ∧ ∀ D ∈ body.2.1, ∀ d ∈ D.item?, d.WellFormed :=
    yields_identifier.bind fun name hname => yields_bind fun _ =>
      (hparens.within _).bind fun Ds hDs => yields_bind fun _ => yields_bind fun _ =>
        yields_pure ⟨hname, hDs⟩
  refine yields_bind fun start => ((hbody.within _).commit).bind fun body hbody => ?_
  exact yields_pure (wellFormed_of_definitions hbody.1 hbody.2)

/-! ### Kinds of statement -/

/-- A statement creates a table only if it was read as one. -/
theorem createTable_of_statement {T : Table} (h : statement s = .ok (.createTable T) rest) :
    createTable s = .ok T rest := by
  -- every other kind of statement reads something else
  have hother : ∀ {p : Rule Statement}, p s = .ok (.createTable T) rest →
      ¬ p.Yields fun st => ∀ T, st ≠ .createTable T :=
    fun hp hyields => hyields s _ rest hp T rfl
  obtain ⟨p, hp, h⟩ := exists_of_firstOf_eq_ok h
  simp only [statements, List.mem_cons, List.not_mem_nil, or_false] at hp
  rcases hp with rfl | rfl | rfl | rfl | rfl | rfl | rfl | rfl | rfl | rfl
  · exact absurd ((yields_true _).map fun _ _ => nofun) (hother h)
  · exact absurd (yields_bind fun _ => yields_bind fun _ => yields_bind fun _ =>
      yields_pure nofun) (hother h)
  · exact absurd (yields_bind fun _ => yields_bind fun _ => yields_pure nofun) (hother h)
  · exact absurd (yields_bind fun _ => yields_bind fun _ => yields_pure nofun) (hother h)
  · exact absurd (yields_bind fun _ => yields_bind fun _ => yields_bind fun _ => yields_bind fun _ =>
      yields_bind fun _ => yields_bind fun _ => yields_bind fun _ => yields_pure nofun) (hother h)
  · obtain ⟨T', hread, heq⟩ := map_eq_ok_iff.1 h
    cases heq
    exact hread
  · exact absurd (yields_bind fun _ => yields_bind fun _ => yields_bind fun _ =>
      yields_bind fun _ => yields_pure nofun) (hother h)
  · exact absurd (yields_bind fun _ => yields_bind fun _ => yields_pure nofun) (hother h)
  · exact absurd (yields_bind fun _ => yields_bind fun _ => yields_bind fun _ =>
      yields_pure nofun) (hother h)
  · exact absurd ((yields_true _).map fun _ _ => nofun) (hother h)

theorem ledBy_char (c : Char) : (char c).LedBy [[c]] := by
  intro s hs
  have hc : s.agreesWith [c] = false := hs [c] List.mem_cons_self
  cases s with
  | nil => cases hc
  | cons d t =>
      refine refuses_char ?_
      rintro rfl
      cases t <;> simp [Text.agreesWith] at hc

/-- What each kind of statement starts with. -/
def statementWords : List (List Text) :=
  [["#".toList, "--".toList, "/*".toList], ["use".toList], ["set".toList], ["drop".toList],
    ["create".toList], ["create".toList], ["alter".toList], ["insert".toList], ["delimiter".toList],
    [";".toList]]

theorem ledBy_comment : comment.LedBy ["#".toList, "--".toList, "/*".toList] :=
  (((ledBy_literal "#").orElse (ledBy_literal "--")).bind _).matched.orElse
    ((ledBy_literal "/*").bind _).matched

theorem ledBy_statements : List.Forall₂ LedBy statements statementWords := by
  refine .cons (ledBy_comment.map _) (.cons ((ledBy_keyword _).bind _) ?_)
  refine .cons ((ledBy_keyword _).bind _) (.cons ((ledBy_keywords rfl).bind _) ?_)
  refine .cons ((ledBy_keyword _).bind _) (.cons (((ledBy_keyword _).bind _).bind _ |>.map _) ?_)
  refine .cons ((ledBy_keywords rfl).bind _) (.cons ((ledBy_keyword _).bind _) ?_)
  exact .cons ((ledBy_keyword _).bind _) (.cons ((ledBy_char ';').map _) .nil)

/-- The creation of a table is not that of a database. -/
theorem refuses_createDatabase (u : Text) :
    createDatabase.Refuses ("CREATE TABLE ".toList ++ u) := by
  have hcreate := keyword_append "create" "CREATE".toList (by decide)
    (wordEnds_space ("TABLE ".toList ++ u))
  have hgap : gap1 (' ' :: ("TABLE ".toList ++ u)) = .ok () ("TABLE ".toList ++ u) :=
    gap1_space (solid_of_head (c := 'T') (by decide) _)
  have hled : (keyword "database" <|> keyword "schema").LedBy ["database".toList, "schema".toList] :=
    (ledBy_keyword _).orElse (ledBy_keyword _)
  exact refuses_bind_of_ok hcreate (refuses_bind_of_ok hgap
    ((hled.refuses "TABLE ".toList (by decide) u).bind _))

/-- The kinds of statement in front of the creation of a table are introduced otherwise. -/
theorem refuses_of_mem_take_five {r : Rule Statement} (hr : r ∈ statements.take 5) (u : Text) :
    r.Refuses ("CREATE TABLE ".toList ++ u) := by
  simp only [statements, List.take, List.mem_cons, List.not_mem_nil, or_false] at hr
  rcases hr with rfl | rfl | rfl | rfl | rfl
  · exact (ledBy_comment.map _).refuses "CREATE TABLE ".toList (by decide) u
  · exact ((ledBy_keyword "use").bind _).refuses "CREATE TABLE ".toList (by decide) u
  · exact ((ledBy_keyword "set").bind _).refuses "CREATE TABLE ".toList (by decide) u
  · exact ((ledBy_keywords rfl).bind _).refuses "CREATE TABLE ".toList (by decide) u
  · exact refuses_createDatabase u

/-- **The creation of a table is read as a statement.** -/
theorem statement_createTable {T : Table}
    (h : createTable ("CREATE TABLE ".toList ++ u) = .ok T rest) :
    statement ("CREATE TABLE ".toList ++ u) = .ok (.createTable T) rest :=
  firstOf_of_refuses (fun _ hr => refuses_of_mem_take_five hr u) (map_eq_ok_iff.2 ⟨T, h, rfl⟩)

/-- What starts with the words for the creation of a table is read as nothing else. -/
theorem exists_createTable_of_statement {st : Statement}
    (h : statement ("CREATE TABLE ".toList ++ u) = .ok st rest) :
    ∃ T, createTable ("CREATE TABLE ".toList ++ u) = .ok T rest := by
  have hsplit : statements =
      statements.take 5 ++ .createTable <$> createTable :: statements.drop 6 := rfl
  obtain ⟨p, hp, hread⟩ := exists_of_firstOf_eq_ok h
  rw [hsplit, List.mem_append, List.mem_cons] at hp
  rcases hp with hp | rfl | hp
  · exact absurd hread (refuses_of_mem_take_five hp u).ne_ok
  · obtain ⟨T, hread, -⟩ := map_eq_ok_iff.1 hread
    exact ⟨T, hread⟩
  · refine absurd hread (Refuses.ne_ok ?_)
    simp only [statements, List.drop, List.mem_cons, List.not_mem_nil, or_false] at hp
    rcases hp with rfl | rfl | rfl | rfl
    · exact ((ledBy_keywords rfl).bind _).refuses "CREATE TABLE ".toList (by decide) u
    · exact ((ledBy_keyword "insert").bind _).refuses "CREATE TABLE ".toList (by decide) u
    · exact ((ledBy_keyword "delimiter").bind _).refuses "CREATE TABLE ".toList (by decide) u
    · exact ((ledBy_char ';').map _).refuses "CREATE TABLE ".toList (by decide) u

/-! ### Sequences of statements -/

theorem trimStart_cons {c : Char} (hc : Text.isBlankChar c = false) (u : Text) :
    Text.trimStart (c :: u) = c :: u :=
  List.dropWhile_cons_of_neg (by simp [hc])

theorem trimStart_append {c : Char} (hw : w.all Text.isBlankChar = true)
    (hc : Text.isBlankChar c = false) : Text.trimStart (w ++ c :: u) = c :: u := by
  rw [Text.trimStart, List.dropWhile_append_of_pos (List.all_eq_true.1 hw)]
  exact trimStart_cons hc u

/-- White space in front of a statement is passed over. -/
theorem readStatements_append {c : Char} {st : Statement}
    (hw : w.all Text.isBlankChar = true) (hc : Text.isBlankChar c = false)
    (h : statement (c :: u) = .ok st rest) (hlt : rest.length < (c :: u).length) :
    readStatements (w ++ c :: u) = (readStatements rest).map (st :: ·) := by
  have hlt : rest.length < (w ++ c :: u).length := by
    rw [List.length_append]
    omega
  rw [readStatements, trimStart_append hw hc]
  simp only [h, hlt, ↓reduceDIte]

/-- The first statement was read from the start of the text, and the other ones behind it. -/
theorem exists_of_readStatements {text : Text} {st : Statement} {ss : List Statement}
    (h : readStatements text = .ok (st :: ss)) :
    ∃ rest, statement text.trimStart = .ok st rest ∧ readStatements rest = .ok ss := by
  rw [readStatements] at h
  split at h
  · cases h
  · next c t htrim =>
    split at h
    · next st' rest hst =>
      split at h
      · cases hrest : readStatements rest with
        | error why => rw [hrest] at h; cases h
        | ok ss' => rw [hrest] at h; cases h; exact ⟨rest, htrim ▸ hst, hrest⟩
      · cases h
    · cases h
    · cases h

theorem exists_of_readStatements_cons {c : Char} {st : Statement} {ss : List Statement}
    (hc : Text.isBlankChar c = false) (h : readStatements (c :: u) = .ok (st :: ss)) :
    ∃ rest, statement (c :: u) = .ok st rest := by
  obtain ⟨rest, hst, -⟩ := exists_of_readStatements h
  rw [trimStart_cons hc] at hst
  exact ⟨rest, hst⟩

/-- A text that does not start with white space is read from its first statement on. -/
theorem exists_statement_of_readStatements {c : Char} {ss : List Statement}
    (hc : Text.isBlankChar c = false) (h : readStatements (c :: u) = .ok ss) :
    ∃ st rest, statement (c :: u) = .ok st rest := by
  rw [readStatements, trimStart_cons hc] at h
  cases hst : statement (c :: u) with
  | ok st rest => exact ⟨st, rest, rfl⟩
  | mismatch why => simp [hst] at h
  | abort why => simp [hst] at h

theorem readStatements_nil : readStatements [] = .ok [] := by
  rw [readStatements]
  rfl

/-- What every statement has in common the statements of a text have in common. -/
theorem forall_of_readStatements {P : Statement → Prop} (hP : statement.Yields P) {text : Text}
    {ss : List Statement} (h : readStatements text = .ok ss) : ∀ st ∈ ss, P st := by
  -- by the recursion of the reading, of which only one case gives statements
  fun_induction readStatements text generalizing ss with
  | case1 => cases h; exact List.forall_mem_nil _
  | case2 text c t htrim st rest hst hlt ih =>
      cases hrest : readStatements rest with
      | error why => rw [hrest] at h; cases h
      | ok ss' =>
          rw [hrest] at h
          cases h
          exact List.forall_mem_cons.2 ⟨hP _ _ _ hst, ih hrest⟩
  | case3 => cases h
  | case4 => cases h
  | case5 => cases h

/-- A text is read as a statement in the given relation, whatever follows. -/
def ReadsAs (P : Statement → Prop) (t : Text) : Prop :=
  (∃ c u, t = c :: u ∧ Text.isBlankChar c = false) ∧
    ∀ rest, ∃ st, statement (t ++ rest) = .ok st rest ∧ P st

theorem readStatements_flatMap {β : Type} {R : β → Statement → Prop} {write : β → Text}
    {bs : List β} (h : ∀ b ∈ bs, ReadsAs (R b) (write b)) :
    ∃ ss, readStatements (bs.flatMap fun b => ['\n', '\n'] ++ write b) = .ok ss ∧
      List.Forall₂ R bs ss := by
  induction bs with
  | nil => exact ⟨[], readStatements_nil, .nil⟩
  | cons b bs ih =>
      obtain ⟨ss, hss, hall⟩ := ih fun b' hb' => h b' (List.mem_cons_of_mem b hb')
      obtain ⟨⟨c, u, hcu, hc⟩, hread⟩ := h b List.mem_cons_self
      obtain ⟨st, hst, hR⟩ := hread (bs.flatMap fun b => ['\n', '\n'] ++ write b)
      refine ⟨st :: ss, ?_, .cons hR hall⟩
      have hstep := readStatements_append (w := ['\n', '\n']) (by decide) hc
        (by rwa [hcu, List.cons_append] at hst) (by
          rw [List.length_cons, List.length_append]
          omega)
      have hshape : (b :: bs).flatMap (fun b => ['\n', '\n'] ++ write b) =
          ['\n', '\n'] ++ c :: (u ++ bs.flatMap fun b => ['\n', '\n'] ++ write b) := by
        rw [List.flatMap_cons, hcu, List.append_assoc]
        rfl
      rw [hshape, hstep, hss]
      rfl

/-- **A sequence of statements is read** with empty lines between them. -/
theorem readStatements_joinWith {β : Type} {R : β → Statement → Prop} {write : β → Text}
    {bs : List β} (h : ∀ b ∈ bs, ReadsAs (R b) (write b)) :
    ∃ ss, readStatements (Text.joinWith ['\n', '\n'] (bs.map write)) = .ok ss ∧
      List.Forall₂ R bs ss := by
  cases bs with
  | nil => exact ⟨[], readStatements_nil, .nil⟩
  | cons b bs =>
      obtain ⟨ss, hss, hall⟩ :=
        readStatements_flatMap fun b' hb' => h b' (List.mem_cons_of_mem b hb')
      obtain ⟨⟨c, u, hcu, hc⟩, hread⟩ := h b List.mem_cons_self
      obtain ⟨st, hst, hR⟩ := hread (bs.flatMap fun b => ['\n', '\n'] ++ write b)
      refine ⟨st :: ss, ?_, .cons hR hall⟩
      have hstep := readStatements_append (w := []) rfl hc
        (by rwa [hcu, List.cons_append] at hst) (by
          rw [List.length_cons, List.length_append]
          omega)
      rw [List.map_cons, Text.joinWith_cons, List.flatMap_map, hcu, List.cons_append]
      rw [List.nil_append] at hstep
      rw [hstep, hss]
      rfl

end Source

open Source

/-! ### Schemas that were read -/

/-- A schema that is read means the statements of its text. -/
theorem Schema.exists_of_read {text : Text} {s : Schema} (h : Schema.read text .mysql = .ok s) :
    ∃ ss, readStatements text = .ok ss ∧ s = ⟨ss.map Source.Statement.meaning⟩ := by
  rw [Schema.read, Source.read] at h
  cases hss : readStatements text with
  | error why => rw [hss] at h; cases h
  | ok ss =>
      rw [hss] at h
      cases h
      exact ⟨ss, rfl, rfl⟩

theorem Schema.read_of_readStatements {text : Text} {ss : List Source.Statement}
    (h : readStatements text = .ok ss) :
    Schema.read text .mysql = .ok ⟨ss.map Source.Statement.meaning⟩ := by
  rw [Schema.read, Source.read, h]
  rfl

/-- Whether a text is read, and as what, can be computed. -/
theorem Schema.read_of_toOption {text : Text} {s : Schema}
    (h : (Schema.read text .mysql).toOption = some s) : Schema.read text .mysql = .ok s := by
  cases hread : Schema.read text .mysql with
  | error why => rw [hread] at h; cases h
  | ok s' =>
      rw [hread] at h
      exact congrArg Except.ok (Option.some.inj h)

/-- **The tables of a schema that was read are well formed.** -/
theorem Schema.wellFormed_of_read {text : Text} {s : Schema} (h : Schema.read text .mysql = .ok s) :
    ∀ t ∈ s.tables, t.WellFormed := by
  obtain ⟨ss, hss, rfl⟩ := Schema.exists_of_read h
  have hyields : Rule.Yields statement fun st => ∀ t ∈ st.meaning.table?, t.WellFormed := by
    intro text st rest hst t ht
    cases st with
    | createTable T =>
        cases ht
        exact yields_createTable text T rest (createTable_of_statement hst)
    | _ => cases ht
  intro t ht
  obtain ⟨m, hm, hmt⟩ := List.mem_filterMap.1 ht
  obtain ⟨st, hst, rfl⟩ := List.mem_map.1 hm
  exact forall_of_readStatements hyields hss st hst t hmt

end SchemaDelta
