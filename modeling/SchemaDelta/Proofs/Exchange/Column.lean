/-
**Exchanging the text behind columns.**

A qualifier of a column is followed by another one, or by the comma or the parenthesis behind the
column.  The options of a reference are a case of their own: what is refused as one of them may be
read as the qualifier `ON UPDATE` with a word that it sets, which takes a fair exchange.

Main results:

* `SchemaDelta.Exchange.Fair.keeps_fieldQualifier` — the qualifiers of a column survive a fair
  exchange;
* `SchemaDelta.Exchange.Fair.keeps_fieldDefinition` — **so do columns**.
-/

import SchemaDelta.Proofs.Exchange.Value

set_option relaxedAutoImplicit false
set_option autoImplicit false
set_option synthInstance.maxSize 2000

namespace SchemaDelta

namespace Source

open Rule Lexeme

instance : Tails characterSet := by
  unfold characterSet
  infer_instance

instance : Tails collation := by
  unfold collation
  infer_instance

instance : Tails defaultClause := by
  unfold defaultClause
  infer_instance

instance : Tails commentClause := by
  unfold commentClause
  infer_instance

instance : Tails onUpdateClause := by
  unfold onUpdateClause
  infer_instance

instance : Tails referenceDefinition := by
  rw [referenceDefinition_eq]
  infer_instance

instance : Tails fieldQualifier := by
  unfold fieldQualifier fieldQualifiers
  infer_instance

instance : Tails typeQualifier := by
  unfold typeQualifier
  infer_instance

/-- The qualifiers of a column. -/
def fieldEnd (name type : Text) (args : Option (List Text)) (typeQualifiers : List Text) :
    Rule Field := do
  let qualifiers ← Rule.many (gap1 *> fieldQualifier)
  return { name, type, args := args.getD [], typeQualifiers, qualifiers }

/-- The words that belong to the type of a column, and its qualifiers. -/
def fieldWords (name type : Text) (args : Option (List Text)) : Rule Field := do
  let typeQualifiers ← Rule.many (gap1 *> typeQualifier)
  fieldEnd name type args typeQualifiers

/-- The type of a column, and its qualifiers. -/
def fieldType (name : Text) : Rule Field := do
  let type ← bareIdentifier
  let args ← Rule.optional (gap0 *> parenthesized (commaList typeArg))
  fieldWords name type args

theorem fieldDefinition_eq :
    fieldDefinition = identifier >>= fun name => gap1 >>= fun _ => fieldType name :=
  rfl

instance (name type : Text) (args : Option (List Text)) (typeQualifiers : List Text) :
    Tails (fieldEnd name type args typeQualifiers) := by
  unfold fieldEnd
  infer_instance

instance (name type : Text) (args : Option (List Text)) : Tails (fieldWords name type args) := by
  unfold fieldWords
  infer_instance

instance (name : Text) : Tails (fieldType name) := by
  unfold fieldType
  infer_instance

instance : Tails fieldDefinition := by
  rw [fieldDefinition_eq]
  infer_instance

end Source

namespace Exchange

open Rule Lexeme Source

variable {x : Exchange} {α β : Type} {p : Rule α} {L : Text → Prop} {s r m t : Text}

/-! ### Kinds of qualifier -/

theorem heads_fieldQualifiers : List.Forall₂ Heads fieldQualifiers qualifierWords := by
  refine .cons ((heads_keywords rfl (by decide)).map _) (.cons ((heads_keyword (by decide)).map _) ?_)
  refine .cons ((heads_keywords rfl (by decide)).map _) (.cons ?_ ?_)
  · exact ((heads_keyword (by decide)).orElse (heads_keywords rfl (by decide))).map _
  refine .cons ?_ (.cons ((Heads.bind (heads_keyword (by decide))).map _) ?_)
  · exact (((heads_keywords rfl (by decide)).orElse (heads_keyword (by decide))).bind).map _
  refine .cons ((Heads.bind (f := fun _ => indexWord?) (heads_keyword (by decide))).map _)
    (.cons (heads_indexWord.map _) ?_)
  refine .cons ((Heads.bind (heads_keyword (by decide))).map _)
    (.cons ((Heads.bind (heads_keyword (by decide))).map _) ?_)
  refine .cons ((Heads.bind (heads_keywords rfl (by decide))).map _) (.cons ?_ .nil)
  refine Heads.map (Heads.matched ?_) _
  rw [referenceDefinition_eq]
  exact (Heads.bind (heads_keyword (by decide))).bind

theorem heads_fieldQualifier : fieldQualifier.Heads qualifierWords.flatten :=
  heads_firstOf heads_fieldQualifiers

/-- What may stand behind a qualifier: after a gap another one, a comma or a parenthesis, and in any
case no option of a reference. -/
def QualifierEnds (x : Exchange) (r : Text) : Prop :=
  ∃ c t, GapTo r (c :: t) ∧ isValueEnd c ∧ Breaks (c :: t) ∧ x.StaysOut referenceOption (c :: t)

theorem QualifierEnds.leads (h : x.QualifierEnds r) : Leads isValueEnd r := by
  obtain ⟨c, t, hgap, hc, hbreaks, -⟩ := h
  exact ⟨c, t, hgap, hc, hbreaks⟩

theorem QualifierEnds.leadsOut (h : x.QualifierEnds r) : x.LeadsOut referenceOption r := by
  obtain ⟨c, t, hgap, -, -, hout⟩ := h
  exact ⟨c :: t, hgap, hout⟩

theorem keeps_autoIncrement : x.Keeps (keyword "auto_increment" <|> keywords "auto increment")
    (· ≠ []) := by
  refine (keeps_keyword (by decide)).orElse (keeps_keywords rfl (by decide)) fun s a r _ h hr => ?_
  obtain ⟨c, t, rfl, -, hbreaks⟩ := Heads.breaks (heads_keywords rfl (by decide)) h hr
  exact staysOut_keyword (by decide) hbreaks

theorem keeps_characterSet : x.Keeps characterSet (· ≠ []) := by
  have hwords : x.Keeps (keywords "character set" <|> keyword "charset") (· ≠ []) := by
    refine (keeps_keywords rfl (by decide)).orElse (keeps_keyword (by decide))
      fun s a r _ h hr => ?_
    exact StaysOut.of_refuses (refuses_of_heads (heads_keyword (by decide)) (ledBy_keywords rfl)
      (by decide) h hr)
  exact hwords.bind_starts (fun _ => keeps_gap1_bind keeps_identifier starts_identifier
    fun _ => isGapStart_of_isNameStart) fun _ => starts_gap1.bind

theorem keeps_collation : x.Keeps collation (· ≠ []) :=
  (keeps_keyword (by decide)).bind_starts (fun _ => keeps_gap1_bind keeps_identifier
    starts_identifier fun _ => isGapStart_of_isNameStart) fun _ => starts_gap1.bind

theorem keeps_commentClause : x.Keeps commentClause (· ≠ []) := by
  have hbody : x.Keeps (quotedString >>= fun q => pure q.2) (· ≠ []) :=
    keeps_quotedString.map fun q => q.2
  exact (keeps_keyword (by decide)).bind_starts (fun _ => keeps_gap1_bind hbody
    starts_quotedString.bind fun _ => isGapStart_of_isNameQuote) fun _ => starts_gap1.bind

theorem Fair.keeps_defaultClause (hx : x.Fair) : x.Keeps defaultClause (Leads isValueEnd) := by
  refine (keeps_keyword (by decide)).bind_starts (fun _ => keeps_gap1_bind'
    (hx.keeps_defaultValue.within _) fun m b r hsolid h hr => ?_) fun _ => starts_gap1.bind
  exact firm_of_defaultValue hsolid (within_eq_ok_iff.1 h) hr.ne_nil

theorem Fair.keeps_onUpdateClause (hx : x.Fair) : x.Keeps onUpdateClause (Leads isValueEnd) :=
  (keeps_keywords rfl (by decide)).bind_starts (fun _ => keeps_gap1_bind' hx.keeps_defaultValue
    fun _ _ _ hsolid h hr => firm_of_defaultValue hsolid h hr.ne_nil) fun _ => starts_gap1.bind

theorem keeps_referenceDefinition :
    x.Keeps referenceDefinition (x.LeadsOut referenceOption) := by
  rw [referenceDefinition_eq]
  exact keeps_referenceFront.andThen fun _ => keeps_referenceOptions.discard

/-- **A qualifier survives a fair exchange** where another one, a comma or a parenthesis follows. -/
theorem Fair.keeps_fieldQualifier (hx : x.Fair) : x.Keeps fieldQualifier x.QualifierEnds := by
  have hne : ∀ r, x.QualifierEnds r → r ≠ [] := fun _ h => h.leads.ne_nil
  have hleads : ∀ r, x.QualifierEnds r → Leads isValueEnd r := fun _ h => h.leads
  refine keeps_firstOf_heads ledBy_fieldQualifiers heads_fieldQualifiers (by decide) ?_ hne
  intro p hp
  simp only [fieldQualifiers, List.mem_cons, List.not_mem_nil, or_false] at hp
  rcases hp with rfl | rfl | rfl | rfl | rfl | rfl | rfl | rfl | rfl | rfl | rfl | rfl
  · exact ((keeps_keywords rfl (by decide)).mono hne).map _
  · exact ((keeps_keyword (by decide)).mono hne).map _
  · exact ((keeps_keywords rfl (by decide)).mono hne).map _
  · exact (keeps_autoIncrement.mono hne).map _
  · exact (keeps_characterSet.mono hne).map _
  · exact (keeps_collation.mono hne).map _
  · refine Keeps.map ((keeps_keyword (by decide)).bind (f := fun _ => indexWord?)
      (fun _ => keeps_indexWord?.mono hleads) fun _ _ m b r _ h hr => ?_) _
    exact ne_nil_of_reads (p := indexWord?) h (hne r hr)
  · exact (keeps_indexWord.mono hne).map _
  · exact (hx.keeps_defaultClause.mono hleads).map _
  · exact (keeps_commentClause.mono hne).map _
  · exact (hx.keeps_onUpdateClause.mono hleads).map _
  · exact (keeps_referenceDefinition.mono fun _ h => h.leadsOut).matched.map _

/-! ### Options of a reference, and qualifiers -/

/-- A phrase whose second word is one that a fair exchange does not bring stays out. -/
theorem Fair.staysOut_keywords (hx : x.Fair) {phrase w : String} {v : Text}
    (hphrase : Text.words phrase.toList = [v, w.toList]) (hv : IsWord v)
    (hw : w ∈ ["null", "default", "action"]) (hs : s <:+ x.whole) (hbreaks : Breaks s) :
    x.StaysOut (keywords phrase) s := by
  have hlast : (gap1 >>= fun _ => wholeWords [w.toList]) = Functor.discard (gap1 *> keyword w) := by
    rw [show wholeWords [w.toList] = Functor.discard (keyword w) from rfl]
    exact (bind_assoc gap1 (fun _ => keyword w) fun _ => pure ()).symm
  have hwords : x.StaysOut (wholeWords [v, w.toList]) s := by
    refine StaysOut.bind (f := fun _ => gap1 >>= fun _ => wholeWords [w.toList])
      (staysOut_wholeWord hv hbreaks) fun t rest h hrefuses => ?_
    obtain ⟨u, rfl, rfl, hu, hends, hspells⟩ := exists_of_wholeWord hv hbreaks h
    have hsecond := hx.word u ((List.suffix_append t u).trans hs) hu w hw
    rw [hlast] at hrefuses ⊢
    rw [List.append_assoc]
    exact refuses_bind_of_ok (wholeWord_append hspells (hends.append hu x.new))
      (hsecond.map _ hrefuses)
  rw [keywords, hphrase]
  exact hwords.matched

theorem Fair.staysOut_referenceAction (hx : x.Fair) (hs : s <:+ x.whole) (hbreaks : Breaks s) :
    x.StaysOut (firstOf referenceActions) s := by
  refine staysOut_firstOf fun p hp => ?_
  simp only [referenceActions, List.mem_cons, List.not_mem_nil, or_false] at hp
  rcases hp with rfl | rfl | rfl | rfl | rfl
  · exact staysOut_keyword (by decide) hbreaks
  · exact staysOut_keyword (by decide) hbreaks
  · exact hx.staysOut_keywords (v := "set".toList) (w := "null") rfl (by decide) (by decide) hs hbreaks
  · exact hx.staysOut_keywords (v := "set".toList) (w := "default") rfl (by decide) (by decide) hs hbreaks
  · exact hx.staysOut_keywords (v := "no".toList) (w := "action") rfl (by decide) (by decide) hs hbreaks

/-- What happens to a reference stays out where the value of a changed row is read: both are
announced by `ON UPDATE`, so that the words behind it decide. -/
theorem Fair.staysOut_actionOption (hx : x.Fair) {v : Source.DefaultValue} (hs : s <:+ x.whole)
    (h : x.Reads onUpdateClause s v r) (hr : r ≠ []) : x.StaysOut actionOption s := by
  obtain ⟨phrase, m₃, hphrase, h₃, hm₃, -⟩ := reads_bind h
  obtain ⟨g, m₄, hgap₃, hvalue, hm₄, -⟩ := reads_bind h₃
  obtain ⟨u, hwords⟩ := reads_matched hphrase
  have hwords : x.Reads (wholeWords ["on".toList, "update".toList]) s u m₃ := hwords
  obtain ⟨on, m₁, hon, h₁, hm₁, -⟩ :=
    reads_bind (f := fun _ => gap1 >>= fun _ => wholeWords ["update".toList]) hwords
  obtain ⟨g', m₂, hgap₁, hlast, hm₂, -⟩ :=
    reads_bind (f := fun _ => wholeWords ["update".toList]) h₁
  obtain ⟨update, hupdate⟩ := discard_eq_ok hlast
  have hfirm₄ := firm_of_defaultValue (solid_of_gap1 hgap₃) hvalue hr
  have hne₃ := ne_nil_of_reads hgap₃ hfirm₄.ne_nil
  have hword : IsWord "update".toList := by decide
  have hfirm₂ : Firm m₂ :=
    firm_of_starts (starts_wholeWord hword) (fun _ => isGapStart_of_isWordChar) hupdate
  have hchange : x.Reads (keyword "delete" <|> keyword "update") m₂ update m₃ := by
    have hdelete : (keyword "delete").Refuses (m₂ ++ x.old) :=
      refuses_of_heads (heads_wholeWord hword) (ledBy_keyword _) (by decide) hupdate hne₃ x.old
    exact (hdelete.orElse_apply _).trans hupdate
  refine (keeps_keyword (by decide)).staysOut_bind hs (ne_nil_of_reads hgap₁ hfirm₂.ne_nil) hon ?_
  refine keeps_gap1.staysOut_bind (hm₁.trans hs) hfirm₂ hgap₁ ?_
  have hs₂ := hm₂.trans (hm₁.trans hs)
  refine (keeps_keyword_orElse (by decide) (by decide)).staysOut_bind hs₂ hne₃ hchange ?_
  refine keeps_gap1.staysOut_bind (hm₃.trans hs) hfirm₄ hgap₃ ?_
  obtain ⟨c, t, rfl, -, hbreaks⟩ := Starts.breaks starts_defaultValue hvalue hr
  exact (hx.staysOut_referenceAction (hm₄.trans (hm₃.trans hs)) hbreaks).map _

/-- The options of a reference stay out where a qualifier is read. -/
theorem Fair.staysOut_referenceOption (hx : x.Fair) {q : Source.Qualifier} (hs : s <:+ x.whole)
    (h : x.Reads fieldQualifier s q r) (hr : r ≠ []) : x.StaysOut referenceOption s := by
  have hmatch : x.StaysOut matchOption s :=
    StaysOut.of_refuses (refuses_of_heads heads_fieldQualifier ((ledBy_keyword "match").bind _)
      (by decide) h hr)
  refine hmatch.orElse ?_
  obtain ⟨p, hp, hread⟩ := exists_of_firstOf_eq_ok h
  have hother : ∀ {ps : List (Rule Source.Qualifier)} {wss : List (List Text)}, p ∈ ps →
      List.Forall₂ Heads ps wss →
      (∀ ws ∈ wss, ∀ w ∈ ws, w.agreesWith "on".toList = false) → x.StaysOut actionOption s := by
    intro ps wss hmem hheads hdiff
    refine staysOut_of_heads ((ledBy_keyword "on").bind _) hheads (fun ws hws w hw v hv => ?_)
      (fun _ => id) p hmem s q r hs hread hr
    obtain rfl := List.mem_singleton.1 hv
    exact hdiff ws hws w hw
  have hsplit : fieldQualifiers = fieldQualifiers.take 10 ++
      (.onUpdate <$> onUpdateClause) :: fieldQualifiers.drop 11 := rfl
  rw [hsplit, List.mem_append, List.mem_cons] at hp
  rcases hp with hp | rfl | hp
  · exact hother hp (List.forall₂_take 10 heads_fieldQualifiers) (by decide)
  · obtain ⟨v, -, hread⟩ := reads_map hread
    exact hx.staysOut_actionOption hs hread hr
  · exact hother hp (List.forall₂_drop 11 heads_fieldQualifiers) (by decide)

/-! ### Columns -/

/-- **The qualifiers of a column survive a fair exchange** where the next definition follows, or
the end of the list. -/
theorem Fair.keeps_fieldQualifiers (hx : x.Fair) :
    x.Keeps (Rule.many (gap1 *> fieldQualifier)) (Leads isItemEnd) := by
  refine keeps_many_gap1 hx.keeps_fieldQualifier heads_fieldQualifier.starts
    (fun _ => isGapStart_of_isWordChar) (fun m qs r hm h hr => ?_) fun s _ hs => ?_
  · rcases reads_many takes_gap1_seq h with ⟨q, m', qs', -, hq, hqs', -⟩ | ⟨-, -, rfl⟩
    · obtain ⟨g, m₂, hgap, hread, hm₂, -⟩ := reads_bind (f := fun _ => fieldQualifier) hq
      have hne := ne_nil_of_reads hqs' hr.ne_nil
      obtain ⟨c, t, rfl, hc, hbreaks⟩ := Heads.breaks heads_fieldQualifier hread hne
      exact ⟨c, t, gapTo_of_gap0 (gap0_of_gap1 hgap) (firm_cons (isGapStart_of_isWordChar hc) t),
        .inl hc, hbreaks, hx.staysOut_referenceOption (hm₂.trans hm) hread hne⟩
    · obtain ⟨c, t, hgap, hc, hbreaks⟩ := hr
      exact ⟨c, t, hgap, .inr hc, hbreaks, refuses_of_isItemEnd ledBy_referenceOption (by decide) hc t⟩
  · obtain ⟨c, t, hgap, hc, -⟩ := hs
    exact ⟨c :: t, hgap, refuses_of_isItemEnd ledBy_fieldQualifier (by decide) hc t⟩

variable {name type : Text} {args : Option (List Text)} {typeQualifiers : List Text}

theorem Fair.keeps_fieldEnd (hx : x.Fair) :
    x.Keeps (fieldEnd name type args typeQualifiers) (Leads isItemEnd) :=
  hx.keeps_fieldQualifiers.map _

theorem meets_fieldEnd : x.Meets isValueEnd (fieldEnd name type args typeQualifiers)
    (Leads isItemEnd) :=
  meets_many_bind takes_gap1_seq ((meets_gap1_heads heads_fieldQualifier).mono fun _ => .inl)
    fun _ => meets_pure fun _ hr => hr.mono fun _ => .inr

/-- The words that belong to a type. -/
def typeWords : List (Rule Text) :=
  [keyword "unsigned", keyword "signed", keyword "zerofill", keyword "binary"]

theorem ledBy_typeWords : List.Forall₂ LedBy typeWords
    [["unsigned".toList], ["signed".toList], ["zerofill".toList], ["binary".toList]] :=
  .cons (ledBy_keyword _) (.cons (ledBy_keyword _) (.cons (ledBy_keyword _)
    (.cons (ledBy_keyword _) .nil)))

theorem heads_typeWords : List.Forall₂ Heads typeWords
    [["unsigned".toList], ["signed".toList], ["zerofill".toList], ["binary".toList]] :=
  .cons (heads_keyword (by decide)) (.cons (heads_keyword (by decide))
    (.cons (heads_keyword (by decide)) (.cons (heads_keyword (by decide)) .nil)))

theorem heads_typeQualifier : typeQualifier.Heads
    ["unsigned".toList, "signed".toList, "zerofill".toList, "binary".toList] :=
  heads_firstOf heads_typeWords

theorem keeps_typeQualifier : x.Keeps typeQualifier (· ≠ []) := by
  change x.Keeps (firstOf typeWords) _
  refine keeps_firstOf_heads ledBy_typeWords heads_typeWords (by decide) (fun p hp => ?_) fun _ => id
  simp only [typeWords, List.mem_cons, List.not_mem_nil, or_false] at hp
  rcases hp with rfl | rfl | rfl | rfl <;> exact keeps_keyword (by decide)

theorem staysOut_typeQualifier (h : Breaks s) : x.StaysOut typeQualifier s := by
  change x.StaysOut (firstOf typeWords) s
  refine staysOut_firstOf fun p hp => ?_
  simp only [typeWords, List.mem_cons, List.not_mem_nil, or_false] at hp
  rcases hp with rfl | rfl | rfl | rfl <;> exact staysOut_keyword (by decide) h

theorem Fair.keeps_fieldWords (hx : x.Fair) : x.Keeps (fieldWords name type args)
    (Leads isItemEnd) := by
  have hmany : x.Keeps (Rule.many (gap1 *> typeQualifier)) (Leads isValueEnd) := by
    refine keeps_many_gap1 keeps_typeQualifier heads_typeQualifier.starts
      (fun _ => isGapStart_of_isWordChar) (fun m as r _ h hr => ne_nil_of_reads h hr.ne_nil) ?_
    rintro s - ⟨c, t, hgap, -, hbreaks⟩
    exact ⟨c :: t, hgap, staysOut_typeQualifier hbreaks⟩
  exact hmany.bind (fun _ => hx.keeps_fieldEnd) fun s as m b r _ h hr => meets_fieldEnd m b r h hr

theorem meets_fieldWords : x.Meets isValueEnd (fieldWords name type args) (Leads isItemEnd) :=
  meets_many_bind takes_gap1_seq ((meets_gap1_heads heads_typeQualifier).mono fun _ => .inl)
    fun _ => meets_fieldEnd

theorem Fair.keeps_fieldType (hx : x.Fair) : x.Keeps (fieldType name) (Leads isItemEnd) := by
  have hargs : ∀ type : Text, x.Keeps (Rule.optional (gap0 *> parenthesized (commaList typeArg)) >>=
      fun args => fieldWords name type args) (Leads isItemEnd) := by
    intro type
    refine keeps_typeArgs.optional_bind (M := fun _ => True) (fun _ => hx.keeps_fieldWords)
      (fun _ _ _ _ _ _ => trivial) fun s b r _ h hr => ?_
    obtain ⟨c, t, hgap, hc, -⟩ := meets_fieldWords s b r h hr
    exact staysOut_gap0_parenthesized (hc.ne (by decide) (by decide) (by decide)) hgap
  exact keeps_bareIdentifier.bind hargs fun s type m b r _ h hr => ne_nil_of_reads h hr.ne_nil

/-- **A column survives a fair exchange** where the next definition follows, or the end of the
list. -/
theorem Fair.keeps_fieldDefinition (hx : x.Fair) : x.Keeps fieldDefinition (Leads isItemEnd) := by
  rw [fieldDefinition_eq]
  exact keeps_identifier.bind_starts (fun _ => keeps_gap1_bind hx.keeps_fieldType
    starts_bareIdentifier.bind fun _ => isGapStart_of_isWordChar) fun _ => starts_gap1.bind

theorem starts_fieldDefinition : fieldDefinition.Starts isNameStart := by
  rw [fieldDefinition_eq]
  exact starts_identifier.bind

end Exchange

end SchemaDelta
