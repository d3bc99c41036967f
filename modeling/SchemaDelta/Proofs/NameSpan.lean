/-
**Where a quoted name ends in the two ways of reading.**

A name is read up to the next backtick.  In a statement that is not looked into, what stands between
backticks is passed over like a string, in which a backslash takes away the meaning of the next
character.  On a name without backticks the two agree unless its last backslash protects the
backtick behind the name, which is so when an odd number of backslashes stands at its end.  Then
nothing closes the name, and the statement is not read at all.

Main definitions:

* `SchemaDelta.Text.finalBackslashes` — how many backslashes stand at the end of a text;
* `SchemaDelta.Table.ofColumn` — a table with one column of integers.

Main results:

* `SchemaDelta.Text.splitAtQuote?_append_quote` — where the body of a string ends that has no quote
  in it;
* `SchemaDelta.Source.read_named_statements` — a table of any name is read, and **it can be dropped
  and altered exactly when its name and that of the column close**.
-/

import Mathlib.Algebra.Ring.Parity
import SchemaDelta.Proofs.Framing

set_option relaxedAutoImplicit false
set_option autoImplicit false

namespace SchemaDelta

/-! ### Backslashes at the end -/

namespace Text

/-- How many backslashes stand at the end of a text. -/
def finalBackslashes (t : Text) : Nat :=
  (t.reverse.takeWhile (· == '\\')).length

variable {q : Char} {t rest : Text}

/-- A character in front counts if it is a backslash and nothing else follows. -/
theorem finalBackslashes_cons (c : Char) (t : Text) :
    finalBackslashes (c :: t) =
      finalBackslashes t + if c = '\\' ∧ t.all (· == '\\') = true then 1 else 0 := by
  unfold finalBackslashes
  rw [List.reverse_cons, List.takeWhile_append]
  by_cases ht : t.all (· == '\\') = true
  · have hall : t.reverse.takeWhile (· == '\\') = t.reverse :=
      List.takeWhile_eq_self_iff.2 fun c hc => List.all_eq_true.1 ht c (List.mem_reverse.1 hc)
    by_cases hc : c = '\\' <;> simp [hall, ht, hc]
  · have hne : (t.reverse.takeWhile (· == '\\')).length ≠ t.reverse.length := by
      intro heq
      refine ht (List.all_eq_true.2 fun c hc => ?_)
      have hself := (List.takeWhile_prefix (· == '\\')).eq_of_length heq
      exact List.takeWhile_eq_self_iff.1 hself c (List.mem_reverse.2 hc)
    rw [if_neg hne, if_neg fun h => ht h.2, Nat.add_zero]

/-- What a backslash protects does not change the parity, be it a backslash or not. -/
theorem even_finalBackslashes_cons_cons (d : Char) (t : Text) :
    Even (finalBackslashes ('\\' :: d :: t)) ↔ Even (finalBackslashes t) := by
  rw [finalBackslashes_cons, finalBackslashes_cons, List.all_cons]
  by_cases hd : d = '\\' ∧ t.all (· == '\\') = true
  · simp [hd, Nat.even_add_one]
  · have hd' : ¬ ((d == '\\' && t.all (· == '\\')) = true) := by simpa using hd
    simp only [hd, hd', and_false, if_false, Nat.add_zero, Bool.false_eq_true]

/-- **Where the body of a string ends** that has no quote in it: at the first quote, unless a
backslash protects that one, and otherwise at the next one. -/
theorem splitAtQuote?_append_quote (hq : q ≠ '\\') (hrest : ∀ c ∈ rest.head?, c ≠ q) :
    ∀ {t : Text}, q ∉ t → splitAtQuote? q (t ++ q :: rest) =
      if Even (finalBackslashes t) then some (t, rest)
      else (splitAtQuote? q rest).map fun p => (t ++ q :: p.1, p.2)
  -- the recursion of the function: a backslash is taken with the next character, others alone
  | [], _ => by
      rw [List.nil_append, splitAtQuote?_close hq hrest]
      rfl
  | [c], hlacks => by
      by_cases hc : c = '\\'
      · subst hc
        rw [List.singleton_append, splitAtQuote?, if_pos rfl, if_neg (by decide)]
        rfl
      · have hfinal : finalBackslashes [c] = 0 := by simp [finalBackslashes, hc]
        have hcq : c ≠ q := fun heq => hlacks (by simp [heq])
        rw [List.singleton_append, splitAtQuote?_cons_of_ne hc hcq (by simp),
          splitAtQuote?_close hq hrest, hfinal]
        rfl
  | c :: d :: t, hlacks => by
      simp only [List.mem_cons, not_or] at hlacks
      by_cases hc : c = '\\'
      · subst hc
        have ih := splitAtQuote?_append_quote hq hrest hlacks.2.2
        simp only [List.cons_append, splitAtQuote?, if_true, ih, even_finalBackslashes_cons_cons]
        split
        · rfl
        · simp [Option.map_map, Function.comp_def]
      · have ih := splitAtQuote?_append_quote hq hrest (t := d :: t) (by simp [hlacks.2])
        rw [List.cons_append, splitAtQuote?_cons_of_ne hc (Ne.symm hlacks.1) (by simp), ih,
          finalBackslashes_cons c]
        simp only [hc, false_and, if_false, Nat.add_zero]
        split
        · rfl
        · simp [Option.map_map, Function.comp_def]

end Text

/-- A table with one column of integers. -/
def Table.ofColumn (name column : Text) : Table where
  name := name
  fields := [{ name := column, type := "int".toList, args := [], qualifiers := [] }]
  declared := []

namespace Lexeme

open Rule

variable {name s last rest : Text}

/-! ### Names that are passed over -/

/-- A name that closes is passed over. -/
theorem passes_quoteIdentifier (hlacks : backtick ∉ name) (heven : Even name.finalBackslashes) :
    Passes (Generator.mysql.quoteIdentifier name) := by
  intro s last hs h
  change Reaches (Text.quotedWith backtick name ++ s) last
  rw [Text.quotedWith_of_not_mem hlacks]
  refine h.quoted (by decide) ?_
  rw [Text.splitAtQuote?_append_quote (by decide) (hs.head_ne (by decide)) hlacks, if_pos heven]

/-- No piece starts at the quote that opens a name if nothing closes it. -/
theorem refuses_verbatimPieces_backtick (hopen : Text.splitAtQuote? backtick s = none) :
    (firstOf verbatimPieces).Refuses (backtick :: s) := by
  have hbody : (quotedBody backtick).Refuses (backtick :: s) :=
    ⟨⟨backtick :: s, []⟩, by rw [quotedBody, if_pos rfl, hopen]⟩
  refine refuses_firstOf fun p hp => ?_
  simp only [verbatimPieces, List.mem_cons, List.not_mem_nil, or_false] at hp
  rcases hp with rfl | rfl | rfl | rfl | rfl | rfl
  · exact (refuses_comment_of_head (by decide) s).discard
  · exact (refuses_quotedBody (by decide) s).discard
  · exact (refuses_quotedBody (by decide) s).discard
  · exact hbody.discard
  · exact (refuses_span1 (by decide)).discard
  · exact (refuses_satisfy (by decide)).discard

end Lexeme

namespace Source

open Rule Lexeme

variable {name column s last : Text}

/-- A statement that is not looked into ends where its pieces do, so there has to be a semicolon. -/
theorem refuses_verbatimEnd (h : Reaches s last) (hlast : statementEnd.Refuses last) :
    verbatimEnd.Refuses s := by
  obtain ⟨us, hus⟩ := h
  have hverbatim : verbatim s = .ok (s.take (s.length - last.length)) last := by
    rw [verbatim, matched, hus]
  exact refuses_bind_of_ok hverbatim (hlast.bind _)

/-- **A statement is not read** if it ends with a name that does not close. -/
theorem refuses_verbatimEnd_quoteIdentifier (hlacks : backtick ∉ name)
    (hodd : ¬ Even name.finalBackslashes) (front : Text) (hfront : front.all isPlain = true) :
    verbatimEnd.Refuses (front ++ (Generator.mysql.quoteIdentifier name ++ [';'])) := by
  have hshape : Generator.mysql.quoteIdentifier name ++ [';'] =
      backtick :: (name ++ backtick :: [';']) := by
    change Text.quotedWith backtick name ++ [';'] = _
    rw [Text.quotedWith_of_not_mem hlacks, List.cons_append, List.append_assoc,
      List.singleton_append]
  have hopen : Text.splitAtQuote? backtick (name ++ backtick :: [';']) = none := by
    have hsemicolon : ∀ c ∈ [';'].head?, c ≠ backtick := by
      intro c hc
      cases hc
      decide
    rw [Text.splitAtQuote?_append_quote (by decide) hsemicolon hlacks, if_neg hodd]
    rfl
  rw [hshape]
  have hpieces := (refuses_verbatimPieces_backtick hopen).many
  have hend : statementEnd.Refuses (backtick :: (name ++ backtick :: [';'])) :=
    refuses_bind_of_ok (gap0_cons (by decide) _) ((refuses_char (by decide)).bind _)
  exact refuses_verbatimEnd (Reaches.plain hfront ⟨[], hpieces⟩) hend

/-! ### Statements about a name -/

/-- A text is read as the one statement that it is. -/
theorem read_of_readsAs {P : Statement → Prop} {t : Text} (h : ReadsAs P t) :
    ∃ st, read t = .ok [st] ∧ P st := by
  obtain ⟨⟨c, u, rfl, hc⟩, hread⟩ := h
  obtain ⟨st, hst, hP⟩ := hread []
  rw [List.append_nil] at hst
  have hone : readStatements (c :: u) = .ok [st] := by
    have hstep := readStatements_append (w := []) rfl hc hst (Nat.succ_pos _)
    exact hstep.trans (congrArg (Except.map _) readStatements_nil)
  exact ⟨st, by rw [read, hone], hP⟩

/-- A text that is no statement is not read. -/
theorem exists_read_eq_error {c : Char} {u : Text} (hc : Text.isBlankChar c = false)
    (h : statement.Refuses (c :: u)) : ∃ why, read (c :: u) = .error why := by
  obtain ⟨why, h⟩ := h
  have herror : readStatements (c :: u) = .error why := by
    rw [readStatements, trimStart_cons hc]
    simp only [h]
  exact ⟨_, by rw [read, herror]⟩

theorem exists_read_dropTable_eq_error (hlacks : backtick ∉ name)
    (hodd : ¬ Even name.finalBackslashes) :
    ∃ why, read (Generator.mysql.dropTable name) = .error why := by
  have hwords := keywords_append "drop table" "DROP".toList "TABLE".toList rfl (by decide)
    (by decide) (by decide) (wordEnds_space (Generator.mysql.quoteIdentifier name ++ [';']))
  have hend := refuses_verbatimEnd_quoteIdentifier hlacks hodd [' '] (by decide)
  have hdrop : dropTable.Refuses ("DROP TABLE".toList ++
      ' ' :: (Generator.mysql.quoteIdentifier name ++ [';'])) :=
    refuses_bind_of_ok hwords (hend.bind _)
  exact exists_read_eq_error (by decide)
    (refuses_firstOf_of_ledBy ledBy_statements 3 rfl "DROP TABLE".toList (by decide) hdrop)

theorem exists_read_alterTable_eq_error (hne : name ≠ []) (hlacks : backtick ∉ name)
    (hcolumn : backtick ∉ column) (hodd : ¬ Even column.finalBackslashes) :
    ∃ why, read (Generator.mysql.alterTable name [.dropField column]) = .error why := by
  let body : Text := " DROP COLUMN ".toList ++ (Generator.mysql.quoteIdentifier column ++ [';'])
  have hwords := keywords_append "alter table" "ALTER".toList "TABLE".toList rfl (by decide)
    (by decide) (by decide) (wordEnds_space (Text.quotedWith backtick name ++ body))
  have hend := refuses_verbatimEnd_quoteIdentifier hcolumn hodd " DROP COLUMN ".toList (by decide)
  have halter : alterTable.Refuses ("ALTER TABLE".toList ++
      ' ' :: (Text.quotedWith backtick name ++ body)) := by
    refine refuses_bind_of_ok hwords ?_
    refine refuses_bind_of_ok (gap1_space (quotedWith_solid name _)) ?_
    refine refuses_bind_of_ok (identifier_quotedWith hne hlacks _) ?_
    exact hend.bind _
  have hshape : Generator.mysql.alterTable name [.dropField column] = "ALTER TABLE".toList ++
      ' ' :: (Text.quotedWith backtick name ++ body) := by
    unfold Generator.alterTable
    rw [List.map_singleton, Text.joinWith_singleton]
    simp only [List.append_assoc]
    rfl
  rw [hshape]
  exact exists_read_eq_error (by decide)
    (refuses_firstOf_of_ledBy ledBy_statements 6 rfl "ALTER TABLE".toList (by decide) halter)

/-- A table with a column of any name is read. -/
theorem exists_read_createTable_ofColumn (hne : name ≠ []) (hlacks : backtick ∉ name)
    (hne' : column ≠ []) (hlacks' : backtick ∉ column) :
    ∃ T, read (Generator.mysql.createTable (.ofColumn name column)) = .ok [.createTable T] ∧
      T.meaning = .ofColumn name column := by
  have hword : ∀ c ∈ "int".toList, c.toNat < 128 ∧ isWordChar c = true ∧ c.isUpper = false := by
    decide
  have hwell : (SchemaDelta.Table.ofColumn name column).WellFormed := by
    refine ⟨hne, List.forall_mem_singleton.2 ?_, List.forall_mem_nil _⟩
    exact ⟨hne', List.cons_ne_nil _ _, fun c hc _ => (hword c hc).2, List.forall_mem_nil _,
      List.forall_mem_nil _⟩
  have hplain : (SchemaDelta.Table.ofColumn name column).Plain := by
    refine ⟨hlacks, List.forall_mem_singleton.2 ?_, List.forall_mem_nil _⟩
    exact ⟨hlacks', fun c hc => (hword c hc).1, List.forall_mem_nil _⟩
  obtain ⟨st, hread, T, rfl, hT⟩ := read_of_readsAs (readsAs_create hwell
    (.inl (List.cons_ne_nil _ _)) hplain (by simp [SchemaDelta.Table.ofColumn]))
  exact ⟨T, hread, hT⟩

/-- **A table of any name is read, but it is dropped and altered only where the name closes.** -/
theorem read_named_statements (hne : name ≠ []) (hlacks : backtick ∉ name) (hne' : column ≠ [])
    (hlacks' : backtick ∉ column) :
    (∃ T, read (Generator.mysql.createTable (.ofColumn name column)) = .ok [.createTable T] ∧
      T.meaning = .ofColumn name column) ∧
    (if Even name.finalBackslashes then
      read (Generator.mysql.dropTable name) =
        .ok [.dropTable (' ' :: Generator.mysql.quoteIdentifier name)]
    else ∃ why, read (Generator.mysql.dropTable name) = .error why) ∧
    (if Even column.finalBackslashes then
      read (Generator.mysql.alterTable name [.dropField column]) =
        .ok [.alterTable (Generator.mysql.quoteIdentifier name)
          (" DROP COLUMN ".toList ++ Generator.mysql.quoteIdentifier column)]
    else ∃ why, read (Generator.mysql.alterTable name [.dropField column]) = .error why) := by
  refine ⟨exists_read_createTable_ofColumn hne hlacks hne' hlacks', ?_, ?_⟩
  · split
    · next heven =>
        obtain ⟨st, hread, rfl⟩ :=
          read_of_readsAs (readsAs_drop_of_passes (passes_quoteIdentifier hlacks heven))
        exact hread
    · next hodd => exact exists_read_dropTable_eq_error hlacks hodd
  · split
    · next heven =>
        have hclause : Passes (Generator.mysql.clause (.dropField column)) :=
          Passes.plain_append (t := "DROP COLUMN ".toList) (by decide)
            (passes_quoteIdentifier hlacks' heven)
        obtain ⟨st, hread, rfl⟩ := read_of_readsAs
          (readsAs_alter_of_passes hne hlacks (List.forall_mem_singleton.2 hclause))
        rwa [List.map_singleton, Text.joinWith_singleton] at hread
    · next hodd => exact exists_read_alterTable_eq_error hne hlacks hlacks' hodd

/-- Two backslashes at the end of a name leave it closed, one at the end of a column does not. -/
theorem read_named_statements_sample :
    read (Generator.mysql.dropTable "it's\\\\".toList) =
        .ok [.dropTable (' ' :: Generator.mysql.quoteIdentifier "it's\\\\".toList)] ∧
      ∃ why, read (Generator.mysql.alterTable "it's\\\\".toList [.dropField "c\\".toList]) =
        .error why := by
  have h := @read_named_statements "it's\\\\".toList "c\\".toList (by decide) (by decide) (by decide)
    (by decide)
  rw [if_pos (by decide), if_neg (by decide)] at h
  exact h.2

/-- A table whose name ends in a backslash is created but cannot be dropped. -/
theorem exists_created_not_dropped :
    ∃ name column, name ≠ [] ∧ backtick ∉ name ∧ column ≠ [] ∧ backtick ∉ column ∧
      (∃ T, read (Generator.mysql.createTable (.ofColumn name column)) = .ok [.createTable T]) ∧
      ∀ ss, read (Generator.mysql.dropTable name) ≠ .ok ss := by
  have hnone : (read (Generator.mysql.dropTable ['a', '\\'])).toOption = none := by decide +kernel
  obtain ⟨T, hread, -⟩ := @exists_read_createTable_ofColumn ['a', '\\'] ['b'] (by decide) (by decide)
    (by decide) (by decide)
  refine ⟨['a', '\\'], ['b'], by decide, by decide, by decide, by decide, ⟨T, hread⟩, ?_⟩
  intro ss h
  rw [h] at hnone
  cases hnone

end Source

end SchemaDelta
