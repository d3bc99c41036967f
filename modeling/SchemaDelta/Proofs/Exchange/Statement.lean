/-
**Exchanging the text behind statements.**

A statement is told by its first words, which stand in front of its end.  Most kinds end with a
semicolon, so that it does not matter what follows.  A comment may end with its line, and the mark
of a delimiter with the next white space; where they end with the front, the new text has to be
empty or start with a line end.

Main results:

* `SchemaDelta.Exchange.statement_of_words` — a statement that starts with keywords survives the
  exchange if its kind does;
* `SchemaDelta.Exchange.Fair.statement_new` — **a statement survives a fair exchange** if the
  columns of its table stay what they are.
-/

import SchemaDelta.Proofs.Exchange.Verbatim

set_option relaxedAutoImplicit false
set_option autoImplicit false

namespace SchemaDelta

namespace Exchange

open Rule Lexeme Source

variable {x : Exchange} {α β : Type} {L : Text → Prop} {s r m t : Text}

/-! ### Comments and delimiters -/

/-- The new text is empty or starts with a line end. -/
def Broken (x : Exchange) : Prop :=
  ∀ c ∈ x.new.head?, c = '\n'

theorem Broken.head (hx : x.Broken) {f : Char → Bool} (hf : f '\n' = false) :
    ∀ c ∈ x.new.head?, f c = false :=
  fun c hc => hx c hc ▸ hf

/-- **A comment survives the exchange** even at the end of the front. -/
theorem Broken.keeps_comment (hx : x.Broken) : x.Keeps comment L :=
  keeps_comment_of_span (keeps_span_of_head (hx.head (by decide)))

instance : Tails delimiterStatement := by
  unfold delimiterStatement
  infer_instance

theorem Broken.keeps_delimiterStatement (hx : x.Broken) : x.Keeps delimiterStatement L := by
  have htoken : x.Keeps (span1 (fun c => !isSpace c) >>= fun token =>
      pure (Source.Statement.delimiter token)) L :=
    (keeps_span1_of_head (hx.head (by decide))).map _
  have htakes : Takes 1 (span1 (fun c => !isSpace c) >>= fun token =>
      pure (Source.Statement.delimiter token)) :=
    (takes_span1 _).bind fun _ => takes_zero _
  exact (keeps_keyword (by decide)).bind_starts (fun _ => (keeps_span1 isSpace).bind_takes
    (fun _ => htoken) fun _ => htakes) fun _ => starts_spaces.bind

/-! ### Kinds of statement -/

section Kinds

variable (hx : x.KeepsComments)

include hx

/-- What is read of a statement that is not looked into. -/
theorem KeepsComments.keeps_verbatimEnd_map (f : Text → Source.Statement) :
    x.Keeps (verbatimEnd >>= fun text => pure (f text)) L :=
  hx.keeps_verbatimEnd.map f

omit hx in
theorem takes_verbatimEnd_map (f : Text → Source.Statement) :
    Takes 1 (verbatimEnd >>= fun text => pure (f text)) :=
  takes_verbatimEnd.bind fun _ => takes_zero _

theorem KeepsComments.keeps_setStatement : x.Keeps setStatement L :=
  (keeps_keyword (by decide)).bind_takes (fun _ => hx.keeps_verbatimEnd_map _)
    fun _ => takes_verbatimEnd_map _

theorem KeepsComments.keeps_insertStatement : x.Keeps insertStatement L :=
  (keeps_keyword (by decide)).bind_takes (fun _ => hx.keeps_verbatimEnd_map _)
    fun _ => takes_verbatimEnd_map _

theorem KeepsComments.keeps_dropTable : x.Keeps dropTable L :=
  (keeps_keywords rfl (by decide)).bind_takes (fun _ => hx.keeps_verbatimEnd_map _)
    fun _ => takes_verbatimEnd_map _

/-- A name and the rest of a statement. -/
theorem KeepsComments.keeps_named (f : Text → Text → Source.Statement) :
    x.Keeps (gap1 >>= fun _ => identifier >>= fun name => verbatimEnd >>= fun text =>
      pure (f name text)) L :=
  keeps_gap1_bind (keeps_identifier.bind_takes (fun _ => hx.keeps_verbatimEnd_map _)
    fun _ => takes_verbatimEnd_map _) starts_identifier.bind fun _ => isGapStart_of_isNameStart

theorem KeepsComments.keeps_alterTable : x.Keeps alterTable L :=
  (keeps_keywords rfl (by decide)).bind_starts (fun _ => hx.keeps_named _)
    fun _ => starts_gap1.bind

omit hx in
theorem keeps_useStatement : x.Keeps useStatement L := by
  have hname : x.Keeps (identifier <* statementEnd) L :=
    keeps_identifier.bind_takes (f := fun name => statementEnd >>= fun _ => pure name)
      (fun _ => keeps_statementEnd.map _) fun _ => Takes.bind (n := 1) (m := 0)
        ((takes_zero gap0).bind fun _ => starts_semicolon.takes) fun _ => takes_zero _
  have hstart : (identifier <* statementEnd).Starts isNameStart :=
    Starts.bind (f := fun name => statementEnd >>= fun _ => pure name) starts_identifier
  exact (keeps_keyword (by decide)).bind_starts (fun _ => keeps_gap1_bind ((hname.within _).map _)
    (hstart.within _).bind fun _ => isGapStart_of_isNameStart) fun _ => starts_gap1.bind

end Kinds

/-! ### The creation of a database -/

/-- The name of a database. -/
def databaseName : Rule Source.Statement := do
  gap1
  let name ← identifier
  let _ ← verbatimEnd
  return .createDatabase name

/-- What follows the word for a database. -/
def databaseEnd : Rule Source.Statement := do
  let _ ← Rule.optional (gap1 *> keywords "if not exists")
  databaseName

/-- What follows the word for a creation, where it is one of a database. -/
def databaseWords : Rule Source.Statement := do
  gap1
  let _ ← keyword "database" <|> keyword "schema"
  databaseEnd

instance : Tails databaseName := by
  unfold databaseName
  infer_instance

instance : Tails databaseEnd := by
  unfold databaseEnd
  infer_instance

instance : Tails databaseWords := by
  unfold databaseWords
  infer_instance

theorem createDatabase_eq : createDatabase = keyword "create" >>= fun _ => databaseWords :=
  rfl

theorem starts_databaseEnd : databaseEnd.Starts fun c => isGapStart c = true :=
  Starts.optional_bind (Starts.bind (f := fun _ => keywords "if not exists") starts_gap1)
    starts_gap1.bind

theorem KeepsComments.keeps_databaseEnd (hx : x.KeepsComments) : x.Keeps databaseEnd L := by
  have hphrase : x.Keeps (gap1 *> keywords "if not exists") (· ≠ []) :=
    keeps_gap1_bind (f := fun _ => keywords "if not exists") (keeps_keywords rfl (by decide))
      (heads_keywords rfl (by decide)).starts fun _ => isGapStart_of_isWordChar
  have htakes : Takes 1 databaseName :=
    Starts.takes (C := fun c => isGapStart c = true) starts_gap1.bind
  refine hphrase.optional_bind (fun _ => hx.keeps_named fun name _ => .createDatabase name)
    (fun _ _ _ _ h _ => ne_nil_of_takes htakes h) fun s b r hs h _ => ?_
  obtain ⟨g, m, hgap, h₁, hm, -⟩ := reads_bind h
  obtain ⟨name, m', hname, h₂, hm', -⟩ := reads_bind h₁
  obtain ⟨text, m'', hend, -⟩ := reads_bind h₂
  obtain ⟨-, hreaches⟩ := reads_verbatimEnd hend
  have hfirm := firm_of_starts starts_identifier (fun _ => isGapStart_of_isNameStart) hname
  have hbreaks := breaks_of_identifier hname (ne_nil_of_takes takes_verbatimEnd hend)
  exact Exchange.staysOut_gap1_bind (f := fun _ => keywords "if not exists")
    (gapTo_of_gap0 (gap0_of_gap1 hgap) hfirm) (staysOut_keywords (v := "if".toList)
      (fun _ _ => identifier_word) rfl (by decide) hname hbreaks
      (hx.staysOut_words (by decide) ((hm'.trans hm).trans hs) hreaches))

/-- The creation of a database survives the exchange. -/
theorem KeepsComments.keeps_createDatabase (hx : x.KeepsComments) : x.Keeps createDatabase L := by
  have hwords : x.Keeps databaseWords L :=
    keeps_gap1_bind ((keeps_keyword_orElse (by decide) (by decide)).bind_starts
      (fun _ => hx.keeps_databaseEnd) fun _ => starts_databaseEnd)
      ((heads_keyword (by decide)).orElse (heads_keyword (by decide))).starts.bind
      fun _ => isGapStart_of_isWordChar
  rw [createDatabase_eq]
  exact (keeps_keyword (by decide)).bind_starts (fun _ => hwords) fun _ => starts_gap1.bind

/-- The creation of a table is not that of a database. -/
theorem refuses_createDatabase {b : Bool × Bool × Text} (hs : s <:+ x.whole)
    (h : x.Reads tableFront s b r) (hr : r ≠ []) : createDatabase.Refuses (s ++ x.new) := by
  obtain ⟨create, m, hcreate, h₁, hm, -⟩ := reads_bind h
  obtain ⟨o, m₁, ho, h₂, -⟩ := reads_bind h₁
  obtain ⟨g, m₂, hgap, h₃, -⟩ := reads_bind h₂
  obtain ⟨table, m₃, htable, h₄, -⟩ := reads_bind h₃
  have hled : (keyword "database" <|> keyword "schema").LedBy ["database".toList, "schema".toList] :=
    (ledBy_keyword _).orElse (ledBy_keyword _)
  -- the word behind the gap is another one, with `temporary` in front of the word for a table or not
  have hword : ∀ {word : String} {t n n' : Text} {u : Unit}, IsWord word.toList →
      (∀ w ∈ ["database".toList, "schema".toList], Text.agreesWith word.toList w = false) →
      x.Reads gap1 m u n → x.Reads (keyword word) n t n' → n' ≠ [] →
      createDatabase.Refuses (s ++ x.new) := by
    intro word t n n' u hword hdiff hgap hread hn'
    have hfirm := firm_of_starts (heads_keyword hword).starts (fun _ => isGapStart_of_isWordChar)
      hread
    have hne := ne_nil_of_takes starts_gap1.takes hgap
    have hcreateNew := keeps_keyword (by decide) s create m hs hne hcreate
    have hgapNew := keeps_gap1 m u n (hm.trans hs) hfirm hgap
    refine refuses_bind_of_ok hcreateNew (refuses_bind_of_ok hgapNew (Refuses.bind ?_ _))
    refine refuses_of_heads (heads_keyword hword) hled (fun v hv w hw => ?_) hread hn' x.new
    obtain rfl := List.mem_singleton.1 hv
    exact hdiff w hw
  have hm₁ : m₁ ≠ [] := ne_nil_of_takes starts_gap1.takes hgap
  rcases reads_optional ho with ⟨temporary, -, htemporary⟩ | ⟨-, -, rfl⟩
  · obtain ⟨g', n, hgap', hread, -⟩ := reads_bind (f := fun _ => keyword "temporary") htemporary
    exact hword (by decide) (by decide) hgap' hread hm₁
  · exact hword (by decide) (by decide) hgap htable (ne_nil_of_reads h₄ hr)

/-! ### Statements -/

/-- **A statement that starts with keywords survives the exchange if its kind does**: the kinds
before it start with other words. -/
theorem statement_of_words {q : Rule β} {f : β → Rule Source.Statement} [Tails q] [∀ b, Tails (f b)]
    {v : Text} {st : Source.Statement} (i : Nat) (hi : statements[i]? = some (q >>= f))
    (hdiff : ∀ ws ∈ statementWords.take i, ∀ w ∈ ws, v.agreesWith w = false) (hq : q.Heads [v])
    (htakes : ∀ b, Takes 1 (f b)) (hkeeps : x.Keeps (q >>= f) fun _ => True) (hs : s <:+ x.whole)
    (h : x.Reads (q >>= f) s st r) : statement (s ++ x.new) = .ok st (r ++ x.new) := by
  have hnew := hkeeps s st r hs trivial h
  obtain ⟨b, m, hfirst, hrest, -⟩ := reads_bind h
  have hm := ne_nil_of_takes (htakes b) hrest
  obtain ⟨v', hv, hword, t, mid, ht, hmid⟩ := hq _ b _ hfirst
  obtain rfl := List.mem_singleton.1 hv
  obtain ⟨w, rfl⟩ := hmid
  rw [← List.append_assoc] at ht
  have hne : w ++ m ≠ [] := fun hnil => hm (List.append_eq_nil_iff.1 hnil).2
  obtain ⟨rfl, -, hspells⟩ := reads_wholeWord hword ht hne
  rw [List.append_assoc] at hnew ⊢
  exact firstOf_of_ledBy ledBy_statements i hi t
    (fun ws hws w hw => hspells.agreesWith (hdiff ws hws w hw)) hnew

/-- The other kinds of statement refuse what starts with the creation of a table. -/
theorem refuses_of_tableFront {front : Bool × Bool × Text} (hs : s <:+ x.whole)
    (hfront : x.Reads tableFront s front m) (hm : m ≠ []) :
    ∀ p ∈ statements.take 5 ++ statements.drop 6, p.Refuses (s ++ x.new) := by
  have hheads : tableFront.Heads ["create".toList] := Heads.bind (heads_keyword (by decide))
  have hdiff : ∀ ws ∈ statementWords.take 4 ++ statementWords.drop 6, ∀ v ∈ ["create".toList],
      ∀ w ∈ ws, Text.agreesWith v w = false := by
    decide
  have hother : ∀ p ∈ statements.take 4 ++ statements.drop 6, p.Refuses (s ++ x.new) := by
    intro p hp
    have hled := List.rel_append (List.forall₂_take 4 ledBy_statements)
      (List.forall₂_drop 6 ledBy_statements)
    obtain ⟨ws, hws, hled⟩ := exists_ledBy_of_mem hled hp
    exact refuses_of_heads hheads hled (hdiff ws hws) hfront hm x.new
  intro p hp
  have hsplit : statements.take 5 = statements.take 4 ++ [createDatabase] := rfl
  rw [hsplit, List.append_assoc, List.mem_append, List.mem_append, List.mem_singleton] at hp
  rcases hp with hp | rfl | hp
  · exact hother p (List.mem_append_left _ hp)
  · exact refuses_createDatabase hs hfront hm
  · exact hother p (List.mem_append_right _ hp)

/-- The creation of a table is read as a statement. -/
theorem statement_createTable_new {T : Source.Table} (hs : s <:+ x.whole)
    (h : x.Reads statement s (.createTable T) r)
    (hT : createTable (s ++ x.new) = .ok T (r ++ x.new)) :
    statement (s ++ x.new) = .ok (.createTable T) (r ++ x.new) := by
  obtain ⟨m, m', hfront, hDs, hlead, -⟩ := reads_createTable (createTable_of_statement h)
  have hm := ne_nil_of_reads hDs hlead.ne_nil
  have hbefore : ∀ p ∈ statements.take 5, p.Refuses (s ++ x.new) := fun p hp =>
    refuses_of_tableFront hs hfront hm p (List.mem_append_left _ hp)
  exact firstOf_of_refuses hbefore (map_eq_ok_iff.2 ⟨T, hT, rfl⟩)

/-- **A statement survives a fair exchange** if the columns of its table stay what they are. -/
theorem Fair.statement_new (hx : x.Fair) (hbroken : x.Broken) {st : Source.Statement}
    (hs : s <:+ x.whole)
    (hcolumns : ∀ d, d <:+ x.whole → d ++ x.old ∈ columnPlaces (s ++ x.old) → x.ColumnStays d)
    (h : x.Reads statement s st r) : statement (s ++ x.new) = .ok st (r ++ x.new) := by
  have hcomments := hx.comments
  have hst := h
  obtain ⟨p, hp, h⟩ := exists_of_firstOf_eq_ok h
  simp only [statements, List.mem_cons, List.not_mem_nil, or_false] at hp
  rcases hp with rfl | rfl | rfl | rfl | rfl | rfl | rfl | rfl | rfl | rfl
  · exact orElse_of_ok (hbroken.keeps_comment.map (L := fun _ => True) _ s st r hs trivial h) _
  · exact statement_of_words (q := keyword "use") 1 rfl (by decide) (heads_keyword (by decide))
      (fun _ => starts_gap1.bind.takes) keeps_useStatement hs h
  · exact statement_of_words (q := keyword "set") 2 rfl (by decide) (heads_keyword (by decide))
      (fun _ => takes_verbatimEnd_map _) hcomments.keeps_setStatement hs h
  · exact statement_of_words (q := keywords "drop table") 3 rfl (by decide)
      (heads_keywords rfl (by decide)) (fun _ => takes_verbatimEnd_map _) hcomments.keeps_dropTable hs h
  · exact statement_of_words (q := keyword "create") (f := fun _ => databaseWords) 4 rfl (by decide)
      (heads_keyword (by decide)) (fun _ => starts_gap1.bind.takes) hcomments.keeps_createDatabase hs h
  · obtain ⟨T, -, rfl⟩ := map_eq_ok_iff.1 h
    exact statement_createTable_new hs hst (hx.createTable_new hs hcolumns hst)
  · exact statement_of_words (q := keywords "alter table") 6 rfl (by decide)
      (heads_keywords rfl (by decide)) (fun _ => starts_gap1.bind.takes) hcomments.keeps_alterTable hs h
  · exact statement_of_words (q := keyword "insert") 7 rfl (by decide) (heads_keyword (by decide))
      (fun _ => takes_verbatimEnd_map _) hcomments.keeps_insertStatement hs h
  · exact statement_of_words (q := keyword "delimiter") 8 rfl (by decide) (heads_keyword (by decide))
      (fun _ => starts_spaces.bind.takes) hbroken.keeps_delimiterStatement hs h
  · obtain ⟨c, hc, rfl⟩ := map_eq_ok_iff.1 h
    obtain rfl := reads_char hc
    exact firstOf_of_ledBy ledBy_statements 9 rfl [';'] (by decide) rfl

end Exchange

end SchemaDelta
