/-
**Where a column default stands, and numbers of bits there.**

The value behind `DEFAULT` is read at a place that the front of the source leads to: some statements,
the front of a table, some of its definitions, and a column up to that word.  A default that leaves
a quote behind it ends everything there.  No gap stands in front of a quote, so that the column has
no further qualifier, no comma follows the column and no parenthesis closes the list.

That is what makes numbers of bits exact.  Where the text between the quotes is no number of up to
64 bits, the letter alone is read as a default, and the quote behind it is left; so the table is not
read, instead of being read with another default.

Main definitions:

* `SchemaDelta.Source.statementsBefore`, `SchemaDelta.Source.defaultFront` — what stands in front of
  a table, and in front of a default in a column;
* `SchemaDelta.Source.DefaultAt` — a column default stands at a place of a source.

Main results:

* `SchemaDelta.Source.DefaultAt.fails_of_quote` — **a default that leaves a quote ends the reading**;
* `SchemaDelta.Source.exists_quote_of_not_isBits` — a letter with something else than bits between
  quotes leaves one;
* `SchemaDelta.Source.bits_exact` — **numbers of bits are exact**, and never a part of what is
  written.
-/

import SchemaDelta.Proofs.FailurePlace
import SchemaDelta.Proofs.Literal

set_option relaxedAutoImplicit false
set_option autoImplicit false

namespace SchemaDelta.Source

open Rule Lexeme Exchange

variable {s m rest source table first column place : Text} {k j : Nat}

/-! ### Places -/

/-- A number of statements, with the white space around them. -/
def statementsBefore : Nat → Rule Unit
  | 0 => fun s => .ok () s.trimStart
  | k + 1 => fun s => (statement >>= fun _ => statementsBefore k) s.trimStart

/-- A column up to its qualifiers. -/
def columnFront : Rule Unit := do
  let _ ← identifier
  gap1
  let _ ← bareIdentifier
  let _ ← Rule.optional (gap0 *> parenthesized (commaList typeArg))
  let _ ← Rule.many (gap1 *> typeQualifier)

/-- A number of qualifiers. -/
def qualifiersBefore : Nat → Rule Unit
  | 0 => pure ()
  | j + 1 => do
    gap1
    let _ ← fieldQualifier
    qualifiersBefore j

/-- A column up to a default behind a number of qualifiers. -/
def defaultFront (j : Nat) : Rule Unit := do
  columnFront
  qualifiersBefore j
  gap1
  let _ ← keyword "default"
  gap1

/-- A column default stands at the text `place` of a source, in the table whose creation stands at
the text `table`. -/
inductive DefaultAt (source table place : Text) : Prop where
  | mk {k n j : Nat} {front : Bool × Bool × Text} {first column : Text}
      (htable : statementsBefore k source = .ok () table)
      (hfirst : tableFront table = .ok front first)
      (hbefore : definitionsBefore n first = .ok () column) (hcolumn : IsColumn column)
      (hplace : defaultFront j column = .ok () place) : DefaultAt source table place

/-! ### Behind a quote nothing goes on -/

theorem solid_quote {q : Char} (hq : Text.isNameQuote q = true) (t : Text) : Solid (q :: t) := by
  refine solid_of_head ?_ t
  simp only [Text.isNameQuote, Bool.or_eq_true, beq_iff_eq] at hq
  rcases hq with (rfl | rfl) | rfl <;> decide

theorem refuses_mark_quote {α : Type} {q c : Char} (hq : Text.isNameQuote q = true)
    (hc : Text.isNameQuote c = false) (f : Char → Rule α) (t : Text) :
    (gap0 >>= fun _ => char c >>= f).Refuses (q :: t) := by
  refine refuses_bind_of_ok (gap0_of_solid (solid_quote hq t)) (Refuses.bind (refuses_char ?_) _)
  rintro rfl
  rw [hq] at hc
  cases hc

/-- What is read as a column was read as one, whatever other definitions there are. -/
theorem IsColumn.exists_fieldDefinition (h : IsColumn column) :
    ∃ f rest, fieldDefinition column = .ok f rest ∧ createDefinition column = .ok (.field f) rest := by
  obtain ⟨f, rest, h⟩ := h
  obtain ⟨p, hp, hread⟩ := exists_of_firstOf_eq_ok h
  simp only [List.mem_cons, List.not_mem_nil, or_false] at hp
  rcases hp with rfl | rfl | rfl
  all_goals
    obtain ⟨g, hg, heq⟩ := map_eq_ok_iff.1 hread
    cases heq
  exact ⟨f, rest, within_eq_ok_iff.1 hg, h⟩

/-- The qualifiers of a column are read one after the other. -/
theorem exists_of_qualifiersBefore {qs : List Qualifier}
    (h : Rule.many (gap1 *> fieldQualifier) s = .ok qs rest)
    (hbefore : qualifiersBefore j s = .ok () m) :
    ∃ qs', Rule.many (gap1 *> fieldQualifier) m = .ok qs' rest := by
  induction j generalizing s qs with
  | zero => cases hbefore; exact ⟨qs, h⟩
  | succ j ih =>
    obtain ⟨⟨⟩, n, hgap, hbefore⟩ := bind_eq_ok_iff.1 hbefore
    obtain ⟨q, n', hq, hbefore⟩ := bind_eq_ok_iff.1 hbefore
    have hstep : (gap1 *> fieldQualifier) s = .ok q n' := (bind_of_ok hgap _).trans hq
    obtain ⟨qs', -, hqs'⟩ := exists_of_many_eq_ok hstep (starts_gap1.bind.takes s q n' hstep) h
    exact ih hqs' hbefore

/-- A default is read where its word announces it. -/
theorem fieldQualifier_of_default {t : Text} {v : DefaultValue} {q : Char} {last : Text}
    (hword : keyword "default" s = .ok t m) (hgap : gap1 m = .ok () place)
    (hv : defaultValue place = .ok v (q :: last)) :
    fieldQualifier s = .ok (.default v) (q :: last) := by
  obtain ⟨⟨rfl, hletters⟩, -⟩ := (keyword_eq_ok_iff (by decide)).1 hword
  have hspells : t.Spells "default".toList := spells_of_map_lowerChar (by decide) hletters
  have hclause : defaultClause (t ++ m) = .ok v (q :: last) :=
    (bind_of_ok hword _).trans ((bind_of_ok hgap _).trans (within_eq_ok_iff.2 hv))
  have hdiff : ∀ ws ∈ qualifierWords.take 8, ∀ w ∈ ws,
      Text.agreesWith "default".toList w = false := by
    decide
  exact firstOf_of_ledBy ledBy_fieldQualifiers 8 rfl t
    (fun ws hws w hw => hspells.agreesWith (hdiff ws hws w hw))
    (map_eq_ok_iff.2 ⟨v, hclause, rfl⟩)

/-- **A column ends behind a default that leaves a quote.** -/
theorem IsColumn.createDefinition_of_quote {v : DefaultValue} {q : Char} {last : Text}
    (h : IsColumn column) (hplace : defaultFront j column = .ok () place)
    (hv : defaultValue place = .ok v (q :: last)) (hq : Text.isNameQuote q = true) :
    ∃ D, createDefinition column = .ok D (q :: last) := by
  obtain ⟨f, rest, hfield, hD⟩ := h.exists_fieldDefinition
  -- the default is read as one of the qualifiers, behind those before it
  obtain ⟨⟨⟩, s, hfront, hplace⟩ := bind_eq_ok_iff.1 hplace
  obtain ⟨⟨⟩, s₁, hbefore, hplace⟩ := bind_eq_ok_iff.1 hplace
  obtain ⟨⟨⟩, s₂, hgap, hplace⟩ := bind_eq_ok_iff.1 hplace
  obtain ⟨word, s₃, hword, hgap'⟩ := bind_eq_ok_iff.1 hplace
  have hqualifier : (gap1 *> fieldQualifier) s₁ = .ok (.default v) (q :: last) :=
    (bind_of_ok hgap _).trans (fieldQualifier_of_default hword hgap' hv)
  obtain ⟨qs, hqs⟩ : ∃ qs, Rule.many (gap1 *> fieldQualifier) s = .ok qs rest := by
    obtain ⟨name, n, hname, hfront⟩ := bind_eq_ok_iff.1 hfront
    obtain ⟨⟨⟩, n₁, hgap₁, hfront⟩ := bind_eq_ok_iff.1 hfront
    obtain ⟨type, n₂, htype, hfront⟩ := bind_eq_ok_iff.1 hfront
    obtain ⟨args, n₃, hargs, hfront⟩ := bind_eq_ok_iff.1 hfront
    obtain ⟨words, n₄, hwords, hpure⟩ := bind_eq_ok_iff.1 hfront
    cases hpure
    rw [fieldDefinition, bind_of_ok hname, bind_of_ok hgap₁, bind_of_ok htype, bind_of_ok hargs,
      bind_of_ok hwords] at hfield
    obtain ⟨qs, n₅, hqs, hpure⟩ := bind_eq_ok_iff.1 hfield
    cases hpure
    exact ⟨qs, hqs⟩
  obtain ⟨qs', hqs'⟩ := exists_of_qualifiersBefore hqs hbefore
  obtain ⟨qs'', -, hlast⟩ := exists_of_many_eq_ok hqualifier
    (starts_gap1.bind.takes s₁ _ _ hqualifier) hqs'
  have hnone : (gap1 *> fieldQualifier).Refuses (q :: last) :=
    (refuses_gap1 (solid_quote hq last)).bind _
  cases hnone.many.symm.trans hlast
  exact ⟨.field f, hD⟩

instance (n : Nat) : Tails (definitionsBefore n) := by
  induction n with
  | zero => unfold definitionsBefore; infer_instance
  | succ n ih => unfold definitionsBefore; infer_instance

/-- Behind some definitions with their commas the others are read. -/
theorem exists_of_definitionsBefore {n : Nat} {Ds : List Definition}
    (h : createDefinitions s = .ok Ds rest) (hbefore : definitionsBefore n s = .ok () m) :
    ∃ Ds', createDefinitions m = .ok Ds' rest := by
  induction n generalizing s Ds with
  | zero => cases hbefore; exact ⟨Ds, h⟩
  | succ n ih =>
    obtain ⟨D, n₁, hD, hbefore⟩ := bind_eq_ok_iff.1 hbefore
    obtain ⟨⟨⟩, n₂, hcomma, hbefore⟩ := bind_eq_ok_iff.1 hbefore
    obtain ⟨D', n₁', hfirst, h⟩ := bind_eq_ok_iff.1 h
    cases hD.symm.trans (commit_eq_ok_iff.1 hfirst)
    obtain ⟨Ds', last, hmany, hpure⟩ := bind_eq_ok_iff.1 h
    cases hpure
    -- a definition has to follow the comma, since it is committed to
    cases hnext : commit createDefinition n₂ with
    | ok D'' n₃ =>
      have hstep : (comma *> commit createDefinition) n₁ = .ok D'' n₃ :=
        (bind_of_ok hcomma _).trans hnext
      have hlt := Nat.lt_of_le_of_lt (Tails.suffix n₂ D'' n₃ (commit_eq_ok_iff.1 hnext)).length_le
        (takes_comma n₁ () n₂ hcomma)
      obtain ⟨Ds'', -, hrest⟩ := exists_of_many_eq_ok hstep hlt hmany
      have hothers : createDefinitions n₂ = .ok (D'' :: Ds'') rest :=
        (bind_of_ok hnext _).trans (bind_of_ok hrest _)
      exact ih hothers hbefore
    | mismatch why =>
      rw [commit] at hnext
      split at hnext <;> cases hnext
    | abort why =>
      have habort : (comma *> commit createDefinition) n₁ = .abort why :=
        (bind_of_ok hcomma _).trans hnext
      rw [many_of_abort habort] at hmany
      cases hmany

/-- What starts with the front of a table is read as the creation of one, or not at all. -/
theorem exists_createTable_of_tableFront {front : Bool × Bool × Text} {st : Statement}
    (hfront : tableFront s = .ok front m) (hm : m ≠ []) (h : statement s = .ok st rest) :
    ∃ T, createTable s = .ok T rest := by
  have hrefuses : ∀ p ∈ statements.take 5 ++ statements.drop 6, p.Refuses s := by
    have hx := refuses_of_tableFront (x := appended s []) List.suffix_rfl
      (reads_appended.2 hfront) hm
    simpa [appended] using hx
  obtain ⟨p, hp, hread⟩ := exists_of_firstOf_eq_ok h
  have hsplit : statements = statements.take 5 ++ .createTable <$> createTable ::
      statements.drop 6 := rfl
  rw [hsplit, List.mem_append, List.mem_cons] at hp
  rcases hp with hp | rfl | hp
  · exact absurd hread (hrefuses p (List.mem_append_left _ hp)).ne_ok
  · obtain ⟨T, hT, -⟩ := map_eq_ok_iff.1 hread
    exact ⟨T, hT⟩
  · exact absurd hread (hrefuses p (List.mem_append_right _ hp)).ne_ok

/-- A text is read only if the statements behind the first ones are. -/
theorem exists_of_statementsBefore {ss : List Statement} (h : readStatements source = .ok ss)
    (hbefore : statementsBefore k source = .ok () table) :
    ∃ text ss', table = text.trimStart ∧ readStatements text = .ok ss' := by
  induction k generalizing source ss with
  | zero => cases hbefore; exact ⟨source, ss, rfl, h⟩
  | succ k ih =>
    obtain ⟨st, rest, hst, hbefore⟩ := bind_eq_ok_iff.1 hbefore
    rw [readStatements_of_statement hst] at h
    cases hrest : readStatements rest with
    | error why => rw [hrest] at h; cases h
    | ok ss' => exact ih hrest hbefore

/-- So it is not read if one of its statements is not. -/
theorem readStatements_ne_ok_of_statementsBefore (hbefore : statementsBefore k source = .ok () table)
    (hne : table ≠ []) (hfails : ∀ st rest, statement table ≠ .ok st rest) (ss : List Statement) :
    readStatements source ≠ .ok ss := by
  intro hss
  obtain ⟨text, ss', rfl, hread⟩ := exists_of_statementsBefore hss hbefore
  cases htrim : text.trimStart with
  | nil => exact hne htrim
  | cons c t =>
    rw [readStatements, htrim] at hread
    rw [htrim] at hfails
    cases hst : statement (c :: t) with
    | ok st rest => exact hfails st rest hst
    | mismatch why => simp [hst] at hread
    | abort why => simp [hst] at hread

/-- **A default that leaves a quote ends the reading**: neither the table is read nor the source. -/
theorem DefaultAt.fails_of_quote {v : DefaultValue} {q : Char} {last : Text}
    (h : DefaultAt source table place) (hv : defaultValue place = .ok v (q :: last))
    (hq : Text.isNameQuote q = true) :
    (∀ st rest, statement table ≠ .ok st rest) ∧ ∀ ss, readStatements source ≠ .ok ss := by
  obtain ⟨htable, hfirst, hbefore, hcolumn, hplace⟩ := h
  rename_i k n j front first column
  obtain ⟨D, hD⟩ := hcolumn.createDefinition_of_quote hplace hv hq
  have hne : first ≠ [] := by
    have hsuffix : (q :: last) <:+ first :=
      (Tails.suffix column D _ hD).trans (Tails.suffix first () column hbefore)
    rintro rfl
    cases List.suffix_nil.1 hsuffix
  have hfails : ∀ st rest, statement table ≠ .ok st rest := by
    intro st rest hst
    obtain ⟨T, hT⟩ := exists_createTable_of_tableFront hfirst hne hst
    obtain ⟨m, m', hfront, hDs, hend⟩ := createTable_eq_ok_iff.1 hT
    cases hfirst.symm.trans hfront
    -- the definitions end with the column, and the list is not closed there
    obtain ⟨Ds, hDs⟩ := exists_of_definitionsBefore hDs hbefore
    obtain ⟨D', n', hfirst', hDs⟩ := bind_eq_ok_iff.1 hDs
    cases hD.symm.trans (commit_eq_ok_iff.1 hfirst')
    obtain ⟨Ds', n'', hmany, hpure⟩ := bind_eq_ok_iff.1 hDs
    cases hpure
    have hcomma : (comma *> commit createDefinition).Refuses (q :: last) :=
      Refuses.bind (refuses_mark_quote hq (by decide) _ last) _
    cases hcomma.many.symm.trans hmany
    exact (refuses_mark_quote hq (c := ')') (by decide) (fun _ => tableOptions) last).ne_ok hend
  have htableNe : table ≠ [] := by
    rintro rfl
    exact hne (List.suffix_nil.1 (Tails.suffix [] front first hfirst))
  exact ⟨hfails, readStatements_ne_ok_of_statementsBefore htable htableNe hfails⟩

/-- A quoted text that is no number of bits may start with one, and then a quote is left. -/
theorem exists_quote_of_bitLiteral {b q : Char} {body following digits : Text}
    (hbody : quotedBody q (q :: (body ++ [q]) ++ following) = .ok body following)
    (hbits : ¬ (q = singleQuote ∧ IsBits body))
    (h : bitLiteral (b :: (q :: (body ++ [q]) ++ following)) = .ok digits rest) :
    ∃ last, rest = singleQuote :: last := by
  obtain ⟨b₁, -, hs, hdigits⟩ := bitLiteral_eq_ok_iff.1 h
  obtain ⟨rfl, hs⟩ : q = singleQuote ∧ body ++ [q] ++ following = digits ++ singleQuote :: rest := by
    simpa using (List.cons.inj hs).2
  refine List.head?_eq_some_iff.1 ?_
  by_contra hquote
  -- no quote follows the digits, and so they are the whole quoted text
  have hends : ∀ c ∈ rest.head?, c ≠ singleQuote := by
    rintro c hc rfl
    exact hquote hc
  have hlacks : ∀ c, isBit c = false → c ∉ digits := by
    intro c hc hmem
    rw [hdigits.bits c hmem] at hc
    cases hc
  have hsplit := Text.splitAtQuote?_of_not_mem (q := singleQuote) (by decide)
    (hlacks singleQuote (by decide)) (hlacks '\\' (by decide)) hends
  obtain ⟨-, hsplit'⟩ := quotedBody_eq_ok hbody
  rw [← hs, List.append_assoc, List.singleton_append, hsplit', Option.some.injEq,
    Prod.mk.injEq] at hsplit
  exact hbits ⟨rfl, hsplit.1 ▸ hdigits⟩

/-- The letter in front of a quoted text that is no number of bits is a default on its own, or a
shorter number is; either way a quote is left. -/
theorem exists_quote_of_not_isBits {b q : Char} {body following : Text} (hb : b = 'b' ∨ b = 'B')
    (hq : Text.isNameQuote q = true)
    (hbody : quotedBody q (q :: (body ++ [q]) ++ following) = .ok body following)
    (hbits : ¬ (q = singleQuote ∧ IsBits body)) :
    ∃ v q' last, defaultValue (b :: (q :: (body ++ [q]) ++ following)) = .ok v (q' :: last) ∧
      Text.isNameQuote q' = true := by
  have htime : currentTime.Refuses (b :: (q :: (body ++ [q]) ++ following)) := by
    rcases hb with rfl | rfl <;> exact ledBy_currentTime.refuses_cons (by decide) _
  have hstring : quotedString.Refuses (b :: (q :: (body ++ [q]) ++ following)) := by
    rcases hb with rfl | rfl <;> exact refuses_quotedString (by decide) _
  rw [defaultValue, firstOf_cons_cons, (htime.map _).orElse_apply, firstOf_cons_cons,
    (hstring.map _).orElse_apply, firstOf_cons_cons, firstOf_singleton]
  cases hread : bitLiteral (b :: (q :: (body ++ [q]) ++ following)) with
  | ok digits rest =>
    obtain ⟨last, rfl⟩ := exists_quote_of_bitLiteral hbody hbits hread
    exact ⟨.bits digits, singleQuote, last, orElse_of_ok (by rw [map_apply, hread]) _, rfl⟩
  | mismatch why =>
    have hword : isTokenChar b = true := by
      rcases hb with rfl | rfl <;> decide
    have hstop : isTokenChar q = false := by
      simp only [Text.isNameQuote, Bool.or_eq_true, beq_iff_eq] at hq
      rcases hq with (rfl | rfl) | rfl <;> decide
    have hspan : span1 isTokenChar ([b] ++ (q :: (body ++ [q]) ++ following)) =
        .ok [b] (q :: (body ++ [q]) ++ following) :=
      span1_append (List.cons_ne_nil _ _) (by simpa using hword) (by simpa using hstop)
    have hrefuses : (DefaultValue.bits <$> bitLiteral).Refuses
        (b :: (q :: (body ++ [q]) ++ following)) := Refuses.map ⟨why, hread⟩ _
    refine ⟨.token [b], q, body ++ [q] ++ following, ?_, hq⟩
    rw [hrefuses.orElse_apply]
    exact map_eq_ok_iff.2 ⟨[b], hspan, rfl⟩
  | abort why => exact absurd hread (mild_bitLiteral _ why)

/-- **Numbers of bits are exact.**  One that is written is read back in front of every text, and its
digits stand for it.  Whatever is read as one, where a default stands and in the tables of a source
that is read, has up to 64 binary digits, which stand for their value.  Where the letter is followed
by a quoted text with other characters, with none or with too many digits, or by another quote, the
creation of the table is not read, and neither is the source. -/
theorem bits_exact :
    (∀ (v : UInt64) (following : Text),
      defaultValue (Generator.mysql.bitLiteral v ++ following) =
        .ok (.bits (Text.binary v.toNat)) following ∧
      (DefaultValue.bits (Text.binary v.toNat)).meaning = .bits v) ∧
    (∀ s digits rest, defaultValue s = .ok (.bits digits) rest →
      (∃ b, (b = 'b' ∨ b = 'B') ∧ s = b :: singleQuote :: (digits ++ singleQuote :: rest)) ∧
      IsBits digits ∧ bitValue digits < Nat.pow 2 64 ∧
      ∃ v : UInt64, v.toNat = bitValue digits ∧ (DefaultValue.bits digits).meaning = .bits v) ∧
    (∀ source ss T f digits, read source = .ok ss → .createTable T ∈ ss →
      .field f ∈ T.definitions → .default (.bits digits) ∈ f.qualifiers →
      IsBits digits ∧ bitValue digits < Nat.pow 2 64 ∧
      ∃ v : UInt64, v.toNat = bitValue digits ∧ (DefaultValue.bits digits).meaning = .bits v) ∧
    (∀ source table place b q body following, DefaultAt source table place →
      place = b :: (q :: (body ++ [q]) ++ following) → (b = 'b' ∨ b = 'B') →
      Text.isNameQuote q = true →
      quotedBody q (q :: (body ++ [q]) ++ following) = .ok body following →
      ¬ (q = singleQuote ∧ IsBits body) →
      (∀ st rest, statement table ≠ .ok st rest) ∧
      ∀ schema, Schema.read source .mysql ≠ .ok schema) := by
  refine ⟨fun v following => ⟨defaultValue_bits v following, ?_⟩, fun s digits rest h => ?_,
    fun source ss T f digits hread hT hf hq => ?_,
    fun source table place b q body following hplace heq hb hq hbody hbits => ?_⟩
  · rw [DefaultValue.meaning, bits?_binary]
  · obtain ⟨hs, hdigits⟩ := bits_of_defaultValue h
    exact ⟨hs, hdigits, hdigits.meaning⟩
  · have hdigits := isBits_of_readStatements (read_eq_ok_iff.1 hread) hT hf hq
    exact ⟨hdigits, hdigits.meaning⟩
  · obtain ⟨v, q', last, hv, hq'⟩ := exists_quote_of_not_isBits hb hq hbody hbits
    obtain ⟨htable, hsource⟩ := hplace.fails_of_quote (heq ▸ hv) hq'
    refine ⟨htable, fun schema hschema => ?_⟩
    obtain ⟨ss, hss, -⟩ := Schema.exists_of_read hschema
    exact hsource ss hss

/-- Three digits that are bits, and three of which the last one is none. -/
theorem bits_exact_sample :
    let accepted : Text := "CREATE TABLE t (a BIT(3) DEFAULT b'101');".toList
    let refused : Text := "SET a = 1;\nCREATE TABLE t (a INT, b BIT NOT NULL DEFAULT B'102');".toList
    (∃ b, (b = 'b' ∨ b = 'B') ∧ "B'101',".toList = b :: singleQuote :: "101',".toList) ∧
      IsBits "101".toList ∧ (read accepted).toOption.isSome = true ∧
      (∃ v : UInt64, v.toNat = bitValue "101".toList ∧
        (DefaultValue.bits "101".toList).meaning = .bits v) ∧
      ∀ schema, Schema.read refused .mysql ≠ .ok schema := by
  intro accepted refused
  obtain ⟨-, hread, hmeaning, hrefused⟩ := bits_exact
  obtain ⟨hwritten, hdigits, -⟩ := hread "B'101',".toList "101".toList ",".toList (by decide +kernel)
  let f : Field := ⟨"a".toList, "BIT".toList, ["3".toList], [], [.default (.bits "101".toList)]⟩
  let T : Table := ⟨false, false, "t".toList, [.field f], []⟩
  have haccepted : read accepted = .ok [.createTable T] := read_of_toOption (by decide +kernel)
  obtain ⟨-, -, hvalue⟩ := hmeaning accepted [.createTable T] T f "101".toList haccepted
    List.mem_cons_self List.mem_cons_self List.mem_cons_self
  have htable : statementsBefore 1 refused =
      .ok () "CREATE TABLE t (a INT, b BIT NOT NULL DEFAULT B'102');".toList := by decide +kernel
  have hfirst : tableFront "CREATE TABLE t (a INT, b BIT NOT NULL DEFAULT B'102');".toList =
      .ok (false, false, "t".toList) "a INT, b BIT NOT NULL DEFAULT B'102');".toList := by
    decide +kernel
  have hbefore : definitionsBefore 1 "a INT, b BIT NOT NULL DEFAULT B'102');".toList =
      .ok () "b BIT NOT NULL DEFAULT B'102');".toList := by decide +kernel
  have hdefault : defaultFront 1 "b BIT NOT NULL DEFAULT B'102');".toList =
      .ok () "B'102');".toList := by decide +kernel
  have hplace := DefaultAt.mk htable hfirst hbefore (by decide +kernel) hdefault
  obtain ⟨-, hfails⟩ := hrefused refused _ _ 'B' singleQuote "102".toList ");".toList hplace rfl
    (.inr rfl) rfl (by decide +kernel) fun h => absurd (h.2.bits '2' (by decide)) (by decide)
  exact ⟨hwritten, hdigits, by rw [haccepted]; rfl, hvalue, hfails⟩

end SchemaDelta.Source
