/-
**Exchanging the text behind indices and foreign keys.**

An index is told by its words, which come before its columns.  So is a foreign key by the columns
that it refers to.  Up to the parenthesis around these columns what is read does not depend on what
stands behind, and what may follow the parenthesis is never missing.

Main definitions:

* `SchemaDelta.Source.indexLeads`, `SchemaDelta.Source.indexFront` — the words of the five kinds of
  index, and what follows them up to the parenthesis;
* `SchemaDelta.Source.foreignKeyFront` — a foreign key up to the parenthesis.

Main results:

* `SchemaDelta.Exchange.keeps_indexDefinition`, `SchemaDelta.Exchange.keeps_foreignKeyDefinition` —
  **indices and foreign keys survive the exchange** where a comma or a parenthesis follows;
* `SchemaDelta.Exchange.not_refuses_indexDefinition`,
  `SchemaDelta.Exchange.not_refuses_foreignKeyDefinition` — **what is read as one of them is not
  refused after the exchange**, whatever follows.
-/

import SchemaDelta.Proofs.Creation
import SchemaDelta.Proofs.Exchange.Lexeme

set_option relaxedAutoImplicit false
set_option autoImplicit false
set_option synthInstance.maxSize 1000

namespace SchemaDelta

namespace Source

open Rule Lexeme

/-! ### The parts of the rules -/

instance : Tails indexWord := by
  unfold indexWord
  infer_instance

instance : Tails indexWord? := by
  unfold indexWord?
  infer_instance

instance : Tails constraintSymbol := by
  unfold constraintSymbol
  infer_instance

instance : Tails constraintStart := by
  unfold constraintStart
  infer_instance

instance : Tails indexName := by
  unfold indexName
  infer_instance

instance : Tails indexType := by
  unfold indexType
  infer_instance

instance : Tails digits1 := by
  unfold digits1
  infer_instance

instance : Tails indexColumn := by
  unfold indexColumn
  infer_instance

instance : Tails indexColumns := by
  unfold indexColumns
  infer_instance

instance (named : Bool) : Tails (optionalName named) := by
  cases named with
  | false => exact inferInstanceAs (Tails (pure none))
  | true => exact inferInstanceAs (Tails (Rule.optional (gap1 *> indexName)))

/-- The name of an index, the storage method before its columns, and the columns. -/
abbrev IndexFront : Type :=
  Option Text × Option IndexMethod × List Text

/-- The columns of an index. -/
def indexFrontColumns (name : Option Text) (before : Option IndexMethod) : Rule IndexFront := do
  gap0
  let columns ← indexColumns
  return (name, before, columns)

/-- The storage method before the columns of an index, and the columns. -/
def indexFrontMethod (name : Option Text) : Rule IndexFront := do
  let before ← Rule.optional (gap1 *> indexType)
  indexFrontColumns name before

/-- What follows the words of an index, up to the parenthesis around its columns. -/
def indexFront (named : Bool) : Rule IndexFront := do
  let name ← optionalName named
  indexFrontMethod name

/-- What follows the parenthesis around the columns of an index. -/
def indexEnd (kind : IndexKind) (front : IndexFront) : Rule Index := do
  let after ← Rule.optional (gap1 *> indexType)
  return { kind, name := front.1, before := front.2.1, columns := front.2.2, after }

instance (name : Option Text) (before : Option IndexMethod) :
    Tails (indexFrontColumns name before) := by
  unfold indexFrontColumns
  infer_instance

instance (name : Option Text) : Tails (indexFrontMethod name) := by
  unfold indexFrontMethod
  infer_instance

instance (named : Bool) : Tails (indexFront named) := by
  unfold indexFront
  infer_instance

instance (kind : IndexKind) (front : IndexFront) : Tails (indexEnd kind front) := by
  unfold indexEnd
  infer_instance

theorem indexBody_eq_bind (kind : IndexKind) (named : Bool) :
    indexBody kind named = indexFront named >>= indexEnd kind := by
  rw [indexBody_eq, indexFront]
  simp only [indexFrontMethod, indexFrontColumns, bind_assoc, pure_bind]
  rfl

instance (kind : IndexKind) (named : Bool) : Tails (indexBody kind named) :=
  indexBody_eq_bind kind named ▸ inferInstance

instance : Tails indexDefinition := by
  unfold indexDefinition primaryDefinition uniqueDefinition fulltextDefinition spatialDefinition
    plainDefinition
  infer_instance

/-- The words of an index of each kind, and whether a name may follow them. -/
def indexLeads : List (Rule Unit × IndexKind × Bool) :=
  [(Rule.optional constraintStart *> Functor.discard (keywords "primary key"), .primary, false),
    (Rule.optional constraintStart *> (keyword "unique" *> Functor.discard indexWord?), .unique,
      true),
    (keyword "fulltext" *> Functor.discard indexWord?, .fulltext, true),
    (keyword "spatial" *> Functor.discard indexWord?, .spatial, true),
    (Functor.discard indexWord, .plain, true)]

theorem discard_bind {α β : Type} (p : Rule α) (f : Unit → Rule β) :
    Functor.discard p >>= f = p >>= fun _ => f () := by
  funext s
  rw [bind_apply, discard_apply, bind_apply]
  cases p s <;> rfl

/-- The rules for the kinds of index. -/
def indexDefinitions : List (Rule Index) :=
  [primaryDefinition, uniqueDefinition, fulltextDefinition, spatialDefinition, plainDefinition]

/-- Each kind of index has its words and a body. -/
theorem indexDefinitions_eq :
    indexDefinitions = indexLeads.map fun l => l.1 >>= fun _ => indexBody l.2.1 l.2.2 := by
  have hseq : ∀ {α : Type} (p : Rule α) (q : Rule Unit) (f : Unit → Rule Index),
      p *> q >>= f = p >>= fun _ => q >>= f := by
    intro α p q f
    exact bind_assoc p (fun _ => q) f
  simp only [indexLeads, List.map, hseq, discard_bind]
  rfl

/-- The table and the columns that a foreign key refers to. -/
def referenceFront : Rule Unit := do
  let _ ← keyword "references"
  gap1
  let _ ← identifier
  gap0
  Functor.discard indexColumns

/-- An option behind a reference. -/
def referenceOption : Rule Unit :=
  matchOption <|> actionOption

/-- The options behind a reference. -/
def referenceOptions : Rule (List Unit) :=
  Rule.many (gap1 *> referenceOption)

/-- The columns of a foreign key and those that it refers to. -/
def foreignKeyColumns : Rule Unit := do
  gap0
  let _ ← indexColumns
  gap1
  referenceFront

/-- What follows the words of a foreign key. -/
def foreignKeyRest : Rule Unit := do
  let _ ← Rule.optional (gap1 *> indexName)
  foreignKeyColumns

/-- A foreign key up to the parenthesis around the columns that it refers to. -/
def foreignKeyFront : Rule Unit := do
  let _ ← Rule.optional constraintStart
  let _ ← keywords "foreign key"
  foreignKeyRest

instance : Tails referenceFront := by
  unfold referenceFront
  infer_instance

instance : Tails matchOption := by
  unfold matchOption
  infer_instance

instance : Tails actionOption := by
  unfold actionOption
  infer_instance

instance : Tails referenceOption := by
  unfold referenceOption
  infer_instance

instance : Tails referenceOptions := by
  unfold referenceOptions
  infer_instance

instance : Tails foreignKeyColumns := by
  unfold foreignKeyColumns
  infer_instance

instance : Tails foreignKeyRest := by
  unfold foreignKeyRest
  infer_instance

instance : Tails foreignKeyFront := by
  unfold foreignKeyFront
  infer_instance

theorem referenceDefinition_eq :
    referenceDefinition = referenceFront >>= fun _ => Functor.discard referenceOptions := by
  rw [referenceFront]
  simp only [bind_assoc, discard_bind]
  rfl

theorem foreignKeyDefinition_eq : foreignKeyDefinition =
    matched (foreignKeyFront >>= fun _ => Functor.discard referenceOptions) := by
  rw [foreignKeyDefinition, foreignKeyFront, referenceDefinition_eq]
  simp only [foreignKeyRest, foreignKeyColumns, bind_assoc]

instance : Tails foreignKeyDefinition := by
  rw [foreignKeyDefinition_eq]
  infer_instance

end Source

/-! ### The words of indices -/

namespace Exchange

open Rule Lexeme Source

variable {x : Exchange} {α β : Type} {L : Text → Prop} {C : Char → Prop} {s r m t : Text}

theorem heads_indexWord : indexWord.Heads ["key".toList, "index".toList] :=
  (heads_keyword (by decide)).orElse (heads_keyword (by decide))

theorem keeps_indexWord : x.Keeps indexWord (· ≠ []) :=
  keeps_keyword_orElse (by decide) (by decide)

theorem staysOut_indexWord (h : Breaks s) : x.StaysOut indexWord s :=
  (staysOut_keyword (by decide) h).orElse (staysOut_keyword (by decide) h)

theorem keeps_indexWord? : x.Keeps indexWord? (Leads C) := by
  refine Keeps.optional (p := gap1 *> indexWord) ?_ fun s _ hs => ?_
  · exact (keeps_gap1_bind (f := fun _ => indexWord) keeps_indexWord heads_indexWord.starts
      fun _ => isGapStart_of_isWordChar).mono fun r hr => hr.ne_nil
  · obtain ⟨c, t, hgap, -, hbreaks⟩ := hs
    exact staysOut_gap1_bind (f := fun _ => indexWord) hgap (staysOut_indexWord hbreaks)

/-- A word with the word for an index behind it, or without. -/
theorem keeps_keyword_indexWord? {word : String} (hword : IsWord word.toList) :
    x.Keeps (keyword word *> Functor.discard indexWord?) (Leads C) := by
  refine (keeps_keyword hword).bind (f := fun _ => Functor.discard indexWord?)
    (fun _ => keeps_indexWord?.discard) fun s a m b r _ h hr => ?_
  rintro rfl
  exact hr.ne_nil (List.suffix_nil.1 h.suffix)

/-! ### Constraints -/

/-- The words that may follow the symbol of a constraint. -/
def constraintWords : Rule Text :=
  firstOf [keyword "primary", keyword "unique", keyword "foreign"]

theorem staysOut_constraintWords (h : Breaks s) : x.StaysOut constraintWords s := by
  refine staysOut_firstOf fun p hp => ?_
  simp only [List.mem_cons, List.not_mem_nil, or_false] at hp
  rcases hp with rfl | rfl | rfl <;> exact staysOut_keyword (by decide) h

theorem breaks_of_identifier {a : Text} (h : x.Reads identifier s a r) (hr : r ≠ []) : Breaks s := by
  obtain ⟨c, t, rfl, -, hbreaks⟩ := Starts.breaks starts_identifier h hr
  exact hbreaks

theorem keeps_constraintSymbol : x.Keeps constraintSymbol (· ≠ []) :=
  Keeps.absent_bind (f := fun _ => identifier) keeps_identifier fun _ _ _ _ h hr =>
    staysOut_constraintWords (breaks_of_identifier h hr)

theorem staysOut_constraintSymbol {c : Char} (hc : Text.isNameQuote c = false)
    (h : Breaks (c :: t)) : x.StaysOut constraintSymbol (c :: t) := by
  have hmild : constraintWords.Mild :=
    (mild_keyword _).orElse ((mild_keyword _).orElse (mild_keyword _))
  exact staysOut_absent_bind (f := fun _ => identifier) hmild (staysOut_constraintWords h)
    (staysOut_identifier hc t)

theorem starts_constraintSymbol : constraintSymbol.Starts isNameStart :=
  Starts.absent_bind (f := fun _ => identifier) starts_identifier

/-- A constraint survives the exchange in front of a word. -/
theorem keeps_constraintStart :
    x.Keeps constraintStart fun r => ∃ c t, r = c :: t ∧ isWordChar c = true ∧ Breaks r := by
  have hsymbol : x.Keeps (gap1 *> constraintSymbol) (· ≠ []) :=
    keeps_gap1_bind (f := fun _ => constraintSymbol) keeps_constraintSymbol starts_constraintSymbol
      fun _ => isGapStart_of_isNameStart
  have hrest : x.Keeps (Rule.optional (gap1 *> constraintSymbol) >>= fun _ => gap1)
      fun r => ∃ c t, r = c :: t ∧ isWordChar c = true ∧ Breaks r := by
    refine hsymbol.optional_bind (fun _ => keeps_gap1.mono ?_) ?_ ?_
    · rintro r ⟨c, t, rfl, hc, -⟩
      exact firm_cons (isGapStart_of_isWordChar hc) t
    · intro a m b r h _
      obtain ⟨c, t, rfl, -⟩ := Starts.ne_nil starts_gap1 h
      exact List.cons_ne_nil c t
    · rintro s b r _ h ⟨c, t, rfl, hc, hbreaks⟩
      have hgap := gapTo_of_gap0 (gap0_of_gap1 h) (firm_cons (isGapStart_of_isWordChar hc) t)
      exact staysOut_gap1_bind (f := fun _ => constraintSymbol) hgap
        (staysOut_constraintSymbol (Text.isNameQuote_of_isWordChar hc) hbreaks)
  exact (keeps_keyword (by decide)).bind_starts (fun _ => hrest) fun _ =>
    Starts.optional_bind starts_gap1.bind starts_gap1

variable {vs ws : List Text} {q : Rule β}

/-- What stands before a word other than `CONSTRAINT` is read as before. -/
theorem reads_constraint {o : Option Unit} {b : β} (hq : q.Heads vs)
    (hdiff : ∀ v ∈ vs, v.agreesWith "constraint".toList = false) (hs : s <:+ x.whole)
    (ho : x.Reads (Rule.optional constraintStart) s o m) (hb : x.Reads q m b r) (hr : r ≠ []) :
    Rule.optional constraintStart (s ++ x.new) = .ok o (m ++ x.new) := by
  rcases reads_optional ho with ⟨a, rfl, ha⟩ | ⟨-, rfl, rfl⟩
  · obtain ⟨c, t, rfl, hc, hbreaks⟩ := Heads.breaks hq hb hr
    exact optional_of_ok (keeps_constraintStart s a _ hs ⟨c, t, rfl, hc, hbreaks⟩ ha)
  · refine Refuses.optional (refuses_of_heads hq ledBy_constraintStart ?_ hb hr x.new)
    intro v hv w hw
    obtain rfl := List.mem_singleton.1 hw
    exact hdiff v hv

theorem keeps_constrained [Tails q] (hq : x.Keeps q L) (hheads : q.Heads vs)
    (hdiff : ∀ v ∈ vs, v.agreesWith "constraint".toList = false) (hL : ∀ r, L r → r ≠ []) :
    x.Keeps (Rule.optional constraintStart >>= fun _ => q) L := by
  intro s b r hs hr h
  obtain ⟨o, m, ho, hb, hm, -⟩ := reads_bind h
  rw [bind_of_ok (reads_constraint hheads hdiff hs ho hb (hL r hr))]
  exact hq m b r (hm.trans hs) hr hb

/-- Rules for other words behind a constraint refuse. -/
theorem refuses_constrained {p : Rule α} {b : β} [Tails q] (hheads : q.Heads vs)
    (hdiff : ∀ v ∈ vs, v.agreesWith "constraint".toList = false) (hp : p.LedBy ws)
    (hother : ∀ v ∈ vs, ∀ w ∈ ws, v.agreesWith w = false) (hs : s <:+ x.whole)
    (h : x.Reads (Rule.optional constraintStart >>= fun _ => q) s b r) (hr : r ≠ []) :
    (Rule.optional constraintStart >>= fun _ => p).Refuses (s ++ x.new) := by
  obtain ⟨o, m, ho, hb, -⟩ := reads_bind h
  exact refuses_bind_of_ok (reads_constraint hheads hdiff hs ho hb hr)
    (refuses_of_heads hheads hp hother hb hr x.new)

/-! ### The bodies of indices -/

theorem keeps_indexName : x.Keeps indexName (· ≠ []) :=
  Keeps.absent_bind (f := fun _ => identifier) keeps_identifier fun _ _ _ _ h hr =>
    staysOut_keyword (by decide) (breaks_of_identifier h hr)

theorem staysOut_indexName {c : Char} (hc : Text.isNameQuote c = false) (h : Breaks (c :: t)) :
    x.StaysOut indexName (c :: t) :=
  staysOut_absent_bind (f := fun _ => identifier) (mild_keyword _) (staysOut_keyword (by decide) h)
    (staysOut_identifier hc t)

theorem starts_indexName : indexName.Starts isNameStart :=
  Starts.absent_bind (f := fun _ => identifier) starts_identifier

/-- The names of the storage methods. -/
def methodNames : List (Rule IndexMethod) :=
  [(fun _ => .btree) <$> keyword "btree", (fun _ => .hash) <$> keyword "hash",
    (fun _ => .rtree) <$> keyword "rtree"]

instance : Tails (firstOf methodNames) := by
  unfold methodNames
  infer_instance

/-- Their words. -/
def methodWords : List (List Text) :=
  [["btree".toList], ["hash".toList], ["rtree".toList]]

theorem ledBy_methodNames : List.Forall₂ LedBy methodNames methodWords :=
  .cons ((ledBy_keyword _).map _) (.cons ((ledBy_keyword _).map _)
    (.cons ((ledBy_keyword _).map _) .nil))

theorem heads_methodNames : List.Forall₂ Heads methodNames methodWords :=
  .cons ((heads_keyword (by decide)).map _) (.cons ((heads_keyword (by decide)).map _)
    (.cons ((heads_keyword (by decide)).map _) .nil))

theorem heads_methodName : (firstOf methodNames).Heads methodWords.flatten :=
  heads_firstOf heads_methodNames

theorem keeps_indexType : x.Keeps indexType (· ≠ []) := by
  have hnames : x.Keeps (firstOf methodNames) (· ≠ []) := by
    refine keeps_firstOf_heads ledBy_methodNames heads_methodNames (by decide) (fun p hp => ?_)
      fun _ => id
    simp only [methodNames, List.mem_cons, List.not_mem_nil, or_false] at hp
    rcases hp with rfl | rfl | rfl <;> exact (keeps_keyword (by decide)).map _
  have husing : x.Keeps (keyword "using" *> gap1) Firm :=
    (keeps_keyword (by decide)).bind_starts (f := fun _ => gap1) (fun _ => keeps_gap1)
      fun _ => starts_gap1
  refine husing.optional_bind (f := fun _ => firstOf methodNames) (fun _ => hnames) ?_ ?_
  · exact fun _ m b r h _ =>
      firm_of_starts heads_methodName.starts (fun _ => isGapStart_of_isWordChar) h
  · intro s b r _ h hr
    exact StaysOut.of_refuses (refuses_of_heads heads_methodName
      (LedBy.bind (f := fun _ => gap1) (ledBy_keyword "using")) (by decide) h hr)

theorem heads_indexType : indexType.Heads ("using".toList :: methodWords.flatten) :=
  Heads.optional_bind (f := fun _ => firstOf methodNames)
    (Heads.bind (f := fun _ => gap1) (heads_keyword (by decide))) heads_methodName

/-! ### The columns of indices -/

theorem keeps_digits1 : x.Keeps digits1 (· ≠ []) :=
  keeps_span1 Char.isDigit

theorem firm_of_digits1 {a : Text} (h : x.Reads digits1 m a r) (hr : r ≠ []) : Firm m := by
  obtain ⟨rfl, hne, hdigits, -⟩ := reads_span1 h hr
  cases a with
  | nil => exact absurd rfl hne
  | cons c a => exact firm_cons (isGapStart_of_isDigit (hdigits c List.mem_cons_self)) _

theorem keeps_length : x.Keeps (gap0 *> parenthesized digits1) L :=
  keeps_gap0_bind (f := fun _ => parenthesized digits1)
    (keeps_parenthesized (keeps_digits1.mono fun _ h => h.ne_nil) fun _ _ _ _ => firm_of_digits1)
    (starts_parenthesized digits1) fun c hc => hc ▸ by decide

/-- A parenthesis stays out where the text leads to something else. -/
theorem staysOut_gap0_parenthesized {inner : Rule α} {c : Char} (hc : c ≠ '(')
    (hs : GapTo s (c :: t)) : x.StaysOut (gap0 *> parenthesized inner) s :=
  staysOut_gap0_bind (f := fun _ => parenthesized inner) hs
    (StaysOut.of_refuses fun _ => (refuses_char hc).bind _)

/-- The direction of an indexed column. -/
def direction : Rule Text :=
  keyword "asc" <|> keyword "desc"

instance : Tails direction := by
  unfold direction
  infer_instance

theorem heads_direction : direction.Heads ["asc".toList, "desc".toList] :=
  (heads_keyword (by decide)).orElse (heads_keyword (by decide))

theorem ledBy_direction : direction.LedBy ["asc".toList, "desc".toList] :=
  (ledBy_keyword _).orElse (ledBy_keyword _)

theorem refuses_of_isItemEnd {p : Rule α} {ws : List Text} (hp : p.LedBy ws)
    (hws : ∀ w ∈ ws, Text.agreesWith [','] w = false ∧ Text.agreesWith [')'] w = false)
    {c : Char} (hc : isItemEnd c) (t : Text) : x.StaysOut p (c :: t) := by
  refine StaysOut.of_refuses fun z => ?_
  rcases hc with rfl | rfl
  · exact hp.refuses_cons (fun w hw => (hws w hw).1) (t ++ z)
  · exact hp.refuses_cons (fun w hw => (hws w hw).2) (t ++ z)

theorem meets_gap1_heads [Tails q] (hq : q.Heads vs) :
    x.Meets (fun c => isWordChar c = true) (gap1 *> q) (· ≠ []) :=
  meets_gap1_bind (f := fun _ => q)
    (meets_of_starts hq.starts (fun _ => isGapStart_of_isWordChar) fun _ => id) hq.starts
    fun _ => isGapStart_of_isWordChar

/-- **An indexed column survives the exchange** where the list goes on or ends. -/
theorem keeps_indexColumn : x.Keeps indexColumn (Leads isItemEnd) := by
  have hdirection : ∀ name : Text, x.Keeps (Rule.optional (gap1 *> direction) >>= fun _ => pure name)
      (Leads isItemEnd) := fun name =>
    keeps_optional_gap1_bind (keeps_keyword_orElse (by decide) (by decide)) heads_direction.starts
      (fun _ => isGapStart_of_isWordChar) (fun _ => keeps_pure name) (fun _ => meets_pure fun _ => id)
      (fun _ h => h.ne_nil) fun c t hc _ => refuses_of_isItemEnd ledBy_direction (by decide) hc t
  have hmeets : ∀ name : Text, x.Meets (fun c => isWordChar c = true ∨ isItemEnd c)
      (Rule.optional (gap1 *> direction) >>= fun _ => pure name) (Leads isItemEnd) := fun name =>
    meets_optional_bind ((meets_gap1_heads heads_direction).mono fun _ => .inl)
      fun _ => meets_pure fun r hr => hr.mono fun _ => .inr
  have hrest : ∀ name : Text, x.Keeps (Rule.optional (gap0 *> parenthesized digits1) >>= fun _ =>
      Rule.optional (gap1 *> direction) >>= fun _ => pure name) (Leads isItemEnd) := by
    intro name
    refine keeps_length.optional_bind (M := fun _ => True) (fun _ => hdirection name)
      (fun _ _ _ _ _ _ => trivial) fun s b r _ h hr => ?_
    obtain ⟨c, t, hgap, hc, -⟩ := hmeets name s b r h hr
    refine staysOut_gap0_parenthesized ?_ hgap
    rintro rfl
    rcases hc with hc | hc | hc <;> exact absurd hc (by decide)
  refine keeps_identifier.bind hrest fun s name m b r _ h hr => ?_
  obtain ⟨o, m', ho, hb, -⟩ := reads_bind h
  have hne := (hmeets name m' b r hb hr).ne_nil
  rintro rfl
  exact hne (List.suffix_nil.1 ho.suffix)

theorem starts_indexColumn : indexColumn.Starts isNameStart :=
  Starts.bind starts_identifier

/-- The columns of an index survive the exchange. -/
theorem keeps_indexColumns : x.Keeps indexColumns L := by
  have hfirm : ∀ m a r, Solid (m ++ x.old) → x.Reads indexColumn m a r → r ≠ [] → Firm m :=
    fun _ _ _ _ h _ => firm_of_starts starts_indexColumn (fun _ => isGapStart_of_isNameStart) h
  refine keeps_parenthesized (keeps_commaList keeps_indexColumn hfirm) fun m a r hsolid h hr => ?_
  obtain ⟨name, m', hname, -⟩ := reads_bind h
  exact firm_of_starts starts_indexColumn (fun _ => isGapStart_of_isNameStart) hname

theorem starts_indexColumns : indexColumns.Starts fun c => c = '(' :=
  starts_parenthesized _

/-! ### Indices -/

/-- The characters that the body of an index starts with. -/
def isBodyStart (c : Char) : Prop :=
  isNameStart c ∨ c = '('

theorem starts_indexFrontColumns {f : List Text → Rule IndexFront} [∀ cs, Tails (f cs)] :
    (indexColumns >>= f).Starts fun c => c = '(' :=
  starts_indexColumns.bind

theorem keeps_indexFrontColumns (name : Option Text) (before : Option IndexMethod) :
    x.Keeps (indexFrontColumns name before) L :=
  keeps_gap0_bind (keeps_indexColumns.andThen fun _ => keeps_pure _) starts_indexFrontColumns
    fun c hc => hc ▸ by decide

theorem meets_indexFrontColumns (name : Option Text) (before : Option IndexMethod) :
    x.Meets (fun c => c = '(') (indexFrontColumns name before) L :=
  meets_gap0_bind (meets_of_mark starts_indexFrontColumns fun c hc => hc ▸ by decide)
    starts_indexFrontColumns fun c hc => hc ▸ by decide

theorem keeps_indexFrontMethod (name : Option Text) : x.Keeps (indexFrontMethod name) L := by
  refine keeps_optional_gap1_bind keeps_indexType heads_indexType.starts
    (fun _ => isGapStart_of_isWordChar) (keeps_indexFrontColumns name)
    (meets_indexFrontColumns name) (fun _ h => h.ne_nil) fun c t hc _ => ?_
  subst hc
  exact StaysOut.of_refuses fun z => ledBy_indexType.refuses_cons (by decide) (t ++ z)

/-- What follows the name of an index leads to a storage method or to the parenthesis. -/
theorem meets_indexFrontMethod (name : Option Text) :
    x.Meets (fun c => isWordChar c = true ∨ c = '(') (indexFrontMethod name) L :=
  meets_optional_bind ((meets_gap1_heads heads_indexType).mono fun _ => .inl) fun before =>
    (meets_indexFrontColumns name before).mono fun _ => .inr

/-- **The front of an index survives the exchange.** -/
theorem keeps_indexFront (named : Bool) : x.Keeps (indexFront named) L := by
  cases named with
  | false => exact (keeps_pure none).andThen keeps_indexFrontMethod
  | true =>
    refine keeps_optional_gap1_bind (q := indexName) keeps_indexName starts_indexName
      (fun _ => isGapStart_of_isNameStart) keeps_indexFrontMethod meets_indexFrontMethod
      (fun _ h => h.ne_nil) fun c t hc hbreaks => staysOut_indexName ?_ hbreaks
    rcases hc with hc | rfl
    · exact Text.isNameQuote_of_isWordChar hc
    · decide

theorem meets_indexFront (named : Bool) : x.Meets isBodyStart (indexFront named) L := by
  have hmethod : ∀ name, x.Meets isBodyStart (indexFrontMethod name) L := fun name =>
    (meets_indexFrontMethod name).mono fun c hc => hc.imp .inr id
  cases named with
  | false =>
    intro s a r h hr
    obtain ⟨name, m, hname, h, -⟩ := reads_bind h
    obtain ⟨rfl, rfl⟩ := reads_pure hname
    exact hmethod none m a r h hr
  | true =>
    refine meets_optional_bind (p := gap1 *> indexName) ?_ hmethod
    exact (meets_gap1_bind (f := fun _ => indexName)
      (meets_of_starts starts_indexName (fun _ => isGapStart_of_isNameStart) fun _ => id)
      starts_indexName fun _ => isGapStart_of_isNameStart).mono fun _ => .inl

theorem keeps_indexEnd (kind : IndexKind) (front : IndexFront) :
    x.Keeps (indexEnd kind front) (Leads isItemEnd) :=
  keeps_optional_gap1_bind keeps_indexType heads_indexType.starts
    (fun _ => isGapStart_of_isWordChar) (fun _ => keeps_pure _) (fun _ => meets_pure fun _ => id)
    (fun _ h => h.ne_nil) fun _ t hc _ => refuses_of_isItemEnd ledBy_indexType (by decide) hc t

theorem tails_indexLead {l : Rule Unit × IndexKind × Bool} (hl : l ∈ indexLeads) : Tails l.1 := by
  simp only [indexLeads, List.mem_cons, List.not_mem_nil, or_false] at hl
  rcases hl with rfl | rfl | rfl | rfl | rfl <;> infer_instance

/-- The words of an index survive the exchange in front of its body. -/
theorem keeps_indexLead {l : Rule Unit × IndexKind × Bool} (hl : l ∈ indexLeads) :
    x.Keeps l.1 (Leads isBodyStart) := by
  simp only [indexLeads, List.mem_cons, List.not_mem_nil, or_false] at hl
  rcases hl with rfl | rfl | rfl | rfl | rfl
  · have hheads : Rule.Heads (Functor.discard (keywords "primary key")) ["primary".toList] :=
      (heads_keywords rfl (by decide)).discard
    refine keeps_constrained ?_ hheads (by decide) fun _ h => h.ne_nil
    exact ((keeps_keywords rfl (by decide)).mono fun _ h => h.ne_nil).discard
  · have hheads : (keyword "unique" *> Functor.discard indexWord?).Heads ["unique".toList] :=
      Heads.bind (f := fun _ => Functor.discard indexWord?) (heads_keyword (by decide))
    exact keeps_constrained (keeps_keyword_indexWord? (by decide)) hheads (by decide)
      fun _ h => h.ne_nil
  · exact keeps_keyword_indexWord? (by decide)
  · exact keeps_keyword_indexWord? (by decide)
  · exact (keeps_indexWord.mono fun _ h => h.ne_nil).discard

theorem keeps_indexLead_bind {l : Rule Unit × IndexKind × Bool} (hl : l ∈ indexLeads) :
    x.Keeps (l.1 >>= fun _ => indexFront l.2.2) L :=
  have := tails_indexLead hl
  (keeps_indexLead hl).bind (fun _ => keeps_indexFront _) fun _ _ m b r _ h hr =>
    meets_indexFront _ m b r h hr

theorem exists_indexLead {p : Rule Source.Index} (hp : p ∈ indexDefinitions) :
    ∃ l ∈ indexLeads, p = (l.1 >>= fun _ => indexFront l.2.2) >>= indexEnd l.2.1 := by
  rw [indexDefinitions_eq] at hp
  obtain ⟨l, hl, rfl⟩ := List.mem_map.1 hp
  refine ⟨l, hl, ?_⟩
  simp only [indexBody_eq_bind, bind_assoc]

theorem heads_constraintStart : constraintStart.Heads ["constraint".toList] :=
  Heads.bind (heads_keyword (by decide))

theorem heads_indexDefinitions : List.Forall₂ Heads indexDefinitions indexWords := by
  refine .cons (Heads.optional_bind heads_constraintStart (Heads.bind ?_)) ?_
  · exact heads_keywords rfl (by decide)
  refine .cons (Heads.optional_bind heads_constraintStart (Heads.bind ?_)) ?_
  · exact heads_keyword (by decide)
  refine .cons (Heads.bind (heads_keyword (by decide))) ?_
  exact .cons (Heads.bind (heads_keyword (by decide))) (.cons (Heads.bind heads_indexWord) .nil)

/-- A primary key stays out where any other index is read. -/
theorem staysOut_primaryDefinition :
    ∀ q ∈ indexDefinitions.tail, ∀ s a r, s <:+ x.whole → x.Reads q s a r → Leads isItemEnd r →
      x.StaysOut primaryDefinition s := by
  have hothers : ∀ q ∈ indexDefinitions.tail.tail, ∀ s a r, s <:+ x.whole → x.Reads q s a r →
      Leads isItemEnd r → x.StaysOut primaryDefinition s := by
    exact staysOut_of_heads (ledBy_constraintStart.optional_bind ((ledBy_keywords rfl).bind _))
      (List.forall₂_drop 2 heads_indexDefinitions) (by decide) fun _ h => h.ne_nil
  intro q hq s a r hs h hr
  rcases List.mem_cons.1 hq with rfl | hq
  · -- both kinds may have a constraint in front, so that the words behind it have to be compared
    have hheads : (keyword "unique" >>= fun _ => indexWord? >>= fun _ =>
        indexBody .unique true).Heads ["unique".toList] := Heads.bind (heads_keyword (by decide))
    exact fun _ => refuses_constrained hheads (by decide) ((ledBy_keywords rfl).bind _) (by decide)
      hs h hr.ne_nil
  · exact hothers q hq s a r hs h hr

/-- **An index survives the exchange** where a comma or a parenthesis follows. -/
theorem keeps_indexDefinition : x.Keeps indexDefinition (Leads isItemEnd) := by
  change x.Keeps (firstOf indexDefinitions) _
  refine keeps_firstOf (fun p hp => ?_) (.cons staysOut_primaryDefinition ?_)
  · obtain ⟨l, hl, rfl⟩ := exists_indexLead hp
    have := tails_indexLead hl
    exact (keeps_indexLead_bind hl).andThen (keeps_indexEnd l.2.1)
  · exact pairwise_staysOut_of_heads (List.forall₂_drop 1 ledBy_indexDefinitions)
      (List.forall₂_drop 1 heads_indexDefinitions) (by decide) fun _ h => h.ne_nil

theorem mild_indexName : indexName.Mild :=
  (mild_keyword _).absent.bind fun _ => mild_identifier

theorem mild_indexType : indexType.Mild := by
  refine ((mild_keyword _).bind fun _ => mild_gap1).optional.bind fun _ => mild_firstOf fun p hp => ?_
  simp only [List.mem_cons, List.not_mem_nil, or_false] at hp
  rcases hp with rfl | rfl | rfl <;> exact (mild_keyword _).map _

theorem mild_constraintStart : constraintStart.Mild := by
  have hsymbol : constraintSymbol.Mild := by
    refine (mild_firstOf fun p hp => ?_).absent.bind fun _ => mild_identifier
    simp only [List.mem_cons, List.not_mem_nil, or_false] at hp
    rcases hp with rfl | rfl | rfl <;> exact mild_keyword _
  exact (mild_keyword _).bind fun _ => (mild_gap1.bind fun _ => hsymbol).optional.bind fun _ =>
    mild_gap1

theorem mild_indexColumns : indexColumns.Mild := by
  have hlength := (mild_gap0.bind fun _ => mild_parenthesized (mild_span1 Char.isDigit)).optional
  have hdirection :=
    (mild_gap1.bind fun _ => (mild_keyword "asc").orElse (mild_keyword "desc")).optional
  exact mild_parenthesized (mild_commaList (mild_identifier.bind fun _ => hlength.bind fun _ =>
    hdirection.bind fun _ => mild_pure _))

theorem mild_indexBody (kind : IndexKind) (named : Bool) : (indexBody kind named).Mild := by
  have htype := (mild_gap1.bind fun _ => mild_indexType).optional
  have hname : (optionalName named).Mild := by
    cases named with
    | false => exact mild_pure none
    | true => exact (mild_gap1.bind fun _ => mild_indexName).optional
  rw [indexBody_eq]
  exact hname.bind fun _ => htype.bind fun _ => mild_gap0.bind fun _ => mild_indexColumns.bind
    fun _ => htype.bind fun _ => mild_pure _

/-- An index is refused where it is not read. -/
theorem mild_indexDefinition : indexDefinition.Mild := by
  have hword : indexWord.Mild := (mild_keyword _).orElse (mild_keyword _)
  have hword? : indexWord?.Mild := (mild_gap1.bind fun _ => hword).optional
  refine mild_firstOf fun p hp => ?_
  simp only [List.mem_cons, List.not_mem_nil, or_false] at hp
  rcases hp with rfl | rfl | rfl | rfl | rfl
  · exact mild_constraintStart.optional.bind fun _ => (mild_keywords _).bind fun _ =>
      mild_indexBody _ _
  · exact mild_constraintStart.optional.bind fun _ => (mild_keyword _).bind fun _ =>
      hword?.bind fun _ => mild_indexBody _ _
  · exact (mild_keyword _).bind fun _ => hword?.bind fun _ => mild_indexBody _ _
  · exact (mild_keyword _).bind fun _ => hword?.bind fun _ => mild_indexBody _ _
  · exact hword.bind fun _ => mild_indexBody _ _

theorem not_refuses_indexEnd (kind : IndexKind) (front : IndexFront) (s : Text) :
    ¬ (indexEnd kind front).Refuses s := by
  have hmild : (gap1 *> indexType).Mild := mild_gap1.bind fun _ => mild_indexType
  obtain ⟨o, rest, ho⟩ := hmild.optional_eq_ok s
  rintro ⟨why, hwhy⟩
  rw [indexEnd, bind_of_ok ho] at hwhy
  cases hwhy

/-- **What is read as an index is not refused after the exchange**, whatever follows. -/
theorem not_refuses_indexDefinition {i : Source.Index} (hs : s <:+ x.whole)
    (h : x.Reads indexDefinition s i r) : ¬ indexDefinition.Refuses (s ++ x.new) := by
  intro hrefuses
  have h : x.Reads (firstOf indexDefinitions) s i r := h
  have hrefuses : (firstOf indexDefinitions).Refuses (s ++ x.new) := hrefuses
  obtain ⟨p, hp, hread⟩ := exists_of_firstOf_eq_ok h
  have hnot := hrefuses.of_firstOf p hp
  obtain ⟨l, hl, rfl⟩ := exists_indexLead hp
  have := tails_indexLead hl
  obtain ⟨front, m, hfront, -⟩ := reads_bind hread
  have hnew := keeps_indexLead_bind (L := fun _ => True) hl s front m hs trivial hfront
  obtain ⟨why, hwhy⟩ := hnot
  rw [bind_of_ok hnew] at hwhy
  exact not_refuses_indexEnd _ _ _ ⟨why, hwhy⟩

/-! ### References -/

theorem keeps_referenceFront : x.Keeps referenceFront L := by
  have hcolumns : x.Keeps (gap0 >>= fun _ => Functor.discard indexColumns) L :=
    keeps_gap0_bind keeps_indexColumns.discard starts_indexColumns.discard
      fun c hc => hc ▸ by decide
  have hmeets : x.Meets (fun c => c = '(') (gap0 >>= fun _ => Functor.discard indexColumns) L :=
    meets_gap0_bind (meets_of_mark starts_indexColumns.discard fun c hc => hc ▸ by decide)
      starts_indexColumns.discard fun c hc => hc ▸ by decide
  have hname : x.Keeps (identifier >>= fun _ => gap0 >>= fun _ => Functor.discard indexColumns) L :=
    keeps_identifier.bind (fun _ => hcolumns) fun _ _ m b r _ h hr => (hmeets m b r h hr).ne_nil
  exact (keeps_keyword (by decide)).bind_starts
    (fun _ => keeps_gap1_bind hname starts_identifier.bind fun _ => isGapStart_of_isNameStart)
    fun _ => starts_gap1.bind

/-- The actions that an option of a reference names. -/
def referenceActions : List (Rule Text) :=
  [keyword "restrict", keyword "cascade", keywords "set null", keywords "set default",
    keywords "no action"]

/-- Their first words. -/
def actionWords : List (List Text) :=
  [["restrict".toList], ["cascade".toList], ["set".toList], ["set".toList], ["no".toList]]

instance : Tails (firstOf referenceActions) := by
  unfold referenceActions
  infer_instance

theorem ledBy_referenceActions : List.Forall₂ LedBy referenceActions actionWords :=
  .cons (ledBy_keyword _) (.cons (ledBy_keyword _) (.cons (ledBy_keywords rfl)
    (.cons (ledBy_keywords rfl) (.cons (ledBy_keywords rfl) .nil))))

theorem heads_referenceActions : List.Forall₂ Heads referenceActions actionWords :=
  .cons (heads_keyword (by decide)) (.cons (heads_keyword (by decide))
    (.cons (heads_keywords rfl (by decide)) (.cons (heads_keywords rfl (by decide))
      (.cons (heads_keywords rfl (by decide)) .nil))))

/-- Of two phrases with the same first word one refuses where the other one is read. -/
theorem refuses_wholeWords {u : Unit} {v w w' : Text} (hv : IsWord v) (hw : IsWord w)
    (hdiff : w.agreesWith w' = false) (hs : s <:+ x.whole)
    (h : x.Reads (wholeWords [v, w]) s u r) (hr : r ≠ []) :
    (wholeWords [v, w']).Refuses (s ++ x.new) := by
  obtain ⟨t, m, hfirst, h₁, hm, -⟩ := reads_bind (f := fun _ => gap1 >>= fun _ => wholeWords [w]) h
  obtain ⟨g, m', hgap, hlast, -⟩ := reads_bind (f := fun _ => wholeWords [w]) h₁
  have hstart := (heads_wholeWords hw []).starts
  have hfirm := firm_of_starts hstart (fun _ => isGapStart_of_isWordChar) hlast
  have hm' : m ≠ [] := by
    rintro rfl
    exact hfirm.ne_nil (List.suffix_nil.1 hgap.suffix)
  have hlast' : (wholeWords [w']).Refuses (m' ++ x.new) := by
    refine refuses_of_heads (heads_wholeWords hw []) (ledBy_wholeWord w').discard ?_ hlast
      hr x.new
    intro a ha b hb
    rw [List.mem_singleton.1 ha, List.mem_singleton.1 hb]
    exact hdiff
  exact refuses_bind_of_ok (keeps_wholeWord hv s t m hs hm' hfirst)
    (refuses_bind_of_ok (keeps_gap1 m g m' (hm.trans hs) hfirm hgap) hlast')

/-- **The action of an option survives the exchange** in front of some text. -/
theorem keeps_referenceAction : x.Keeps (firstOf referenceActions) (· ≠ []) := by
  have hled := ledBy_referenceActions
  have hheads := heads_referenceActions
  refine keeps_firstOf (fun p hp => ?_) ?_
  · simp only [referenceActions, List.mem_cons, List.not_mem_nil, or_false] at hp
    rcases hp with rfl | rfl | rfl | rfl | rfl
    · exact keeps_keyword (by decide)
    · exact keeps_keyword (by decide)
    · exact keeps_keywords rfl (by decide)
    · exact keeps_keywords rfl (by decide)
    · exact keeps_keywords rfl (by decide)
  · refine .cons (staysOut_of_heads (ledBy_keyword _) (List.forall₂_drop 1 hheads) (by decide)
      fun _ => id) (.cons (staysOut_of_heads (ledBy_keyword _) (List.forall₂_drop 2 hheads)
        (by decide) fun _ => id) (.cons ?_ (pairwise_staysOut_of_heads (List.forall₂_drop 3 hled)
          (List.forall₂_drop 3 hheads) (by decide) fun _ => id)))
    intro q hq s a r hs h hr
    rcases List.mem_cons.1 hq with rfl | hq
    · intro _
      obtain ⟨u, h⟩ := reads_matched h
      exact (refuses_wholeWords (v := "set".toList) (w := "default".toList) (by decide)
        (by decide) (by decide) hs h hr).matched
    · exact staysOut_of_heads (ledBy_keywords rfl) (List.forall₂_drop 4 hheads) (by decide)
        (fun _ => id) q hq s a r hs h hr

theorem heads_referenceOption : referenceOption.Heads ["match".toList, "on".toList] :=
  (Heads.bind (heads_keyword (by decide))).orElse (Heads.bind (heads_keyword (by decide)))

theorem ledBy_referenceOption : referenceOption.LedBy ["match".toList, "on".toList] :=
  ((ledBy_keyword _).bind _).orElse ((ledBy_keyword _).bind _)

theorem keeps_matchOption : x.Keeps matchOption (· ≠ []) := by
  have hkinds : List.Forall₂ LedBy [keyword "full", keyword "partial", keyword "simple"]
      [["full".toList], ["partial".toList], ["simple".toList]] :=
    .cons (ledBy_keyword _) (.cons (ledBy_keyword _) (.cons (ledBy_keyword _) .nil))
  have hheads : List.Forall₂ Heads [keyword "full", keyword "partial", keyword "simple"]
      [["full".toList], ["partial".toList], ["simple".toList]] :=
    .cons (heads_keyword (by decide)) (.cons (heads_keyword (by decide))
      (.cons (heads_keyword (by decide)) .nil))
  have hkeeps : x.Keeps (firstOf [keyword "full", keyword "partial", keyword "simple"])
      (· ≠ []) := by
    refine keeps_firstOf_heads hkinds hheads (by decide) (fun p hp => ?_) fun _ => id
    simp only [List.mem_cons, List.not_mem_nil, or_false] at hp
    rcases hp with rfl | rfl | rfl <;> exact keeps_keyword (by decide)
  have hlast : x.Keeps (firstOf [keyword "full", keyword "partial", keyword "simple"] >>=
      fun _ => pure ()) (· ≠ []) :=
    hkeeps.map fun _ => ()
  exact (keeps_keyword (by decide)).bind_starts
    (fun _ => keeps_gap1_bind hlast (heads_firstOf hheads).starts.bind
      fun _ => isGapStart_of_isWordChar) fun _ => starts_gap1.bind

theorem keeps_actionOption : x.Keeps actionOption (· ≠ []) := by
  have hlast : x.Keeps (firstOf referenceActions >>= fun _ => pure ()) (· ≠ []) :=
    keeps_referenceAction.map fun _ => ()
  have hchange : x.Keeps (keyword "delete" <|> keyword "update") (· ≠ []) :=
    keeps_keyword_orElse (by decide) (by decide)
  have hstart : (keyword "delete" <|> keyword "update").Starts fun c => isWordChar c = true :=
    ((heads_keyword (by decide)).orElse (heads_keyword (by decide))).starts
  have haction : x.Keeps (gap1 >>= fun _ => firstOf referenceActions >>= fun _ => pure ())
      (· ≠ []) :=
    keeps_gap1_bind hlast (heads_firstOf heads_referenceActions).starts.bind
      fun _ => isGapStart_of_isWordChar
  exact (keeps_keyword (by decide)).bind_starts
    (fun _ => keeps_gap1_bind (hchange.bind_starts (fun _ => haction) fun _ => starts_gap1.bind)
      hstart.bind fun _ => isGapStart_of_isWordChar) fun _ => starts_gap1.bind

theorem keeps_referenceOption : x.Keeps referenceOption (· ≠ []) := by
  refine keeps_matchOption.orElse keeps_actionOption fun s a r _ h hr => ?_
  have hheads : actionOption.Heads ["on".toList] := Heads.bind (heads_keyword (by decide))
  exact StaysOut.of_refuses
    (refuses_of_heads hheads ((ledBy_keyword "match").bind _) (by decide) h hr)

/-- After a gap the text goes on with something that a rule stays out of. -/
def LeadsOut (x : Exchange) (q : Rule α) (r : Text) : Prop :=
  ∃ m, GapTo r m ∧ x.StaysOut q m

/-- **The options of a reference survive the exchange** in front of something else. -/
theorem keeps_referenceOptions : x.Keeps referenceOptions (x.LeadsOut referenceOption) := by
  refine keeps_many_gap1 keeps_referenceOption heads_referenceOption.starts
    (fun _ => isGapStart_of_isWordChar) (fun m as r _ h hr => ?_) fun _ _ hs => hs
  obtain ⟨m', hgap, -⟩ := hr
  rintro rfl
  exact hgap.ne_nil (List.suffix_nil.1 h.suffix)

theorem leadsOut_of_isItemEnd (h : Leads isItemEnd r) : x.LeadsOut referenceOption r := by
  obtain ⟨c, t, hgap, hc, -⟩ := h
  exact ⟨c :: t, hgap, refuses_of_isItemEnd ledBy_referenceOption (by decide) hc t⟩

/-! ### Foreign keys -/

theorem keeps_foreignKeyColumns : x.Keeps foreignKeyColumns L := by
  have hreference : x.Keeps (gap1 >>= fun _ => referenceFront) L :=
    keeps_gap1_bind keeps_referenceFront (Heads.bind (heads_keyword (by decide))).starts
      fun _ => isGapStart_of_isWordChar
  exact keeps_gap0_bind (keeps_indexColumns.andThen fun _ => hreference) starts_indexColumns.bind
    fun c hc => hc ▸ by decide

theorem meets_foreignKeyColumns : x.Meets (fun c => c = '(') foreignKeyColumns L :=
  meets_gap0_bind (meets_of_mark starts_indexColumns.bind fun c hc => hc ▸ by decide)
    starts_indexColumns.bind fun c hc => hc ▸ by decide

theorem keeps_foreignKeyRest : x.Keeps foreignKeyRest L := by
  refine keeps_optional_gap1_bind keeps_indexName starts_indexName
    (fun _ => isGapStart_of_isNameStart) (fun _ => keeps_foreignKeyColumns)
    (fun _ => meets_foreignKeyColumns) (fun _ h => h.ne_nil) fun c t hc hbreaks => ?_
  subst hc
  exact staysOut_indexName (by decide) hbreaks

theorem meets_foreignKeyRest : x.Meets isBodyStart foreignKeyRest L := by
  have hname : x.Meets isBodyStart (gap1 *> indexName) (· ≠ []) :=
    (meets_gap1_bind (f := fun _ => indexName)
      (meets_of_starts starts_indexName (fun _ => isGapStart_of_isNameStart) fun _ => id)
      starts_indexName fun _ => isGapStart_of_isNameStart).mono fun _ => .inl
  exact meets_optional_bind hname fun _ => meets_foreignKeyColumns.mono fun _ => .inr

/-- **The front of a foreign key survives the exchange.** -/
theorem keeps_foreignKeyFront : x.Keeps foreignKeyFront L := by
  intro s u r hs hr h
  obtain ⟨o, m, ho, h₁, hm, -⟩ := reads_bind h
  obtain ⟨t, m', hwords, hrest, hm', -⟩ := reads_bind h₁
  have hne := (meets_foreignKeyRest m' u r hrest hr).ne_nil
  have hstart := reads_constraint (heads_keywords rfl (by decide)) (by decide) hs ho hwords hne
  have hwords' := keeps_keywords rfl (by decide) m t m' (hm.trans hs) hne hwords
  rw [foreignKeyFront, bind_of_ok hstart, bind_of_ok hwords']
  exact keeps_foreignKeyRest m' u r (hm'.trans (hm.trans hs)) hr hrest

/-- **A foreign key survives the exchange** where a comma or a parenthesis follows. -/
theorem keeps_foreignKeyDefinition : x.Keeps foreignKeyDefinition (Leads isItemEnd) := by
  rw [foreignKeyDefinition_eq]
  refine (keeps_foreignKeyFront.andThen fun _ => ?_).matched
  exact (keeps_referenceOptions.mono fun _ => leadsOut_of_isItemEnd).discard

theorem mild_referenceOptions : referenceOptions.Mild := by
  have hmatch : matchOption.Mild := by
    refine (mild_keyword _).bind fun _ => mild_gap1.bind fun _ => (mild_firstOf fun p hp => ?_).map _
    simp only [List.mem_cons, List.not_mem_nil, or_false] at hp
    rcases hp with rfl | rfl | rfl <;> exact mild_keyword _
  have haction : actionOption.Mild := by
    refine (mild_keyword _).bind fun _ => mild_gap1.bind fun _ => ((mild_keyword _).orElse
      (mild_keyword _)).bind fun _ => mild_gap1.bind fun _ => (mild_firstOf fun p hp => ?_).map _
    simp only [List.mem_cons, List.not_mem_nil, or_false] at hp
    rcases hp with rfl | rfl | rfl | rfl | rfl
    · exact mild_keyword _
    · exact mild_keyword _
    · exact mild_keywords _
    · exact mild_keywords _
    · exact mild_keywords _
  exact (mild_gap1.bind fun _ => hmatch.orElse haction).many

/-- A foreign key is refused where it is not read. -/
theorem mild_foreignKeyDefinition : foreignKeyDefinition.Mild := by
  have hreference : referenceFront.Mild := (mild_keyword _).bind fun _ => mild_gap1.bind fun _ =>
    mild_identifier.bind fun _ => mild_gap0.bind fun _ => mild_indexColumns.discard
  have hcolumns : foreignKeyColumns.Mild := mild_gap0.bind fun _ => mild_indexColumns.bind fun _ =>
    mild_gap1.bind fun _ => hreference
  have hfront : foreignKeyFront.Mild := mild_constraintStart.optional.bind fun _ =>
    (mild_keywords _).bind fun _ => (mild_gap1.bind fun _ => mild_indexName).optional.bind fun _ =>
      hcolumns
  rw [foreignKeyDefinition_eq]
  exact (hfront.bind fun _ => mild_referenceOptions.discard).matched

/-- **What is read as a foreign key is not refused after the exchange**, whatever follows. -/
theorem not_refuses_foreignKeyDefinition {a : Text} (hs : s <:+ x.whole)
    (h : x.Reads foreignKeyDefinition s a r) : ¬ foreignKeyDefinition.Refuses (s ++ x.new) := by
  rw [foreignKeyDefinition_eq] at h ⊢
  obtain ⟨u, h⟩ := reads_matched h
  obtain ⟨v, m, hfront, -⟩ := reads_bind h
  have hnew := keeps_foreignKeyFront (L := fun _ => True) s v m hs trivial hfront
  rintro ⟨why, hwhy⟩
  rw [matched, bind_of_ok hnew, discard_apply] at hwhy
  cases hmany : referenceOptions (m ++ x.new) with
  | ok as rest => rw [hmany] at hwhy; cases hwhy
  | mismatch why' => exact many_ne_mismatch _ _ _ hmany
  | abort why' => exact mild_referenceOptions _ _ hmany

end Exchange

end SchemaDelta
