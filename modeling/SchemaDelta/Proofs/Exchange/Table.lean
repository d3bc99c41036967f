/-
**Exchanging the text behind tables.**

What stands in the parenthesis of a table is an index, a foreign key or a column, in this order, so
that a column is one by not being an index or a foreign key.  That may change with the text behind
it: `key enum('a\\',')` is a column where the quote behind the comma is never closed, and the start
of an index where it is.  A table survives a fair exchange if its columns stay what they are.

Main definitions:

* `SchemaDelta.Source.IsColumn` — a text starts with what is read as a column;
* `SchemaDelta.Source.definitionPlaces`, `SchemaDelta.Source.columnPlaces` — where the definitions
  of a list, and the columns of a table, are read;
* `SchemaDelta.Exchange.ColumnStays` — what is no index and no foreign key does not become one.

Main results:

* `SchemaDelta.Exchange.Fair.createDefinitions_new` — the definitions of a table survive a fair
  exchange if its columns stay what they are;
* `SchemaDelta.Exchange.Fair.createTable_new` — **so does the table**.
-/

import SchemaDelta.Proofs.Exchange.Column
import SchemaDelta.Proofs.Reading

set_option relaxedAutoImplicit false
set_option autoImplicit false
set_option synthInstance.maxSize 2000

namespace SchemaDelta

namespace Rule

variable {α β : Type} {p q r : Rule α}

/-! ### Rules that read the same -/

/-- Two rules read the same, though they may give up in different ways. -/
def Agrees (p q : Rule α) : Prop :=
  ∀ s a rest, p s = .ok a rest ↔ q s = .ok a rest

theorem Agrees.refl (p : Rule α) : p.Agrees p :=
  fun _ _ _ => Iff.rfl

theorem Agrees.trans (hpq : p.Agrees q) (hqr : q.Agrees r) : p.Agrees r :=
  fun s a rest => (hpq s a rest).trans (hqr s a rest)

theorem Agrees.bind {f g : α → Rule β} (hpq : p.Agrees q) (hfg : ∀ a, (f a).Agrees (g a)) :
    (p >>= f).Agrees (q >>= g) := by
  intro s b rest
  simp only [bind_eq_ok_iff, hpq s, (hfg _) _ b rest]

theorem agrees_commit (p : Rule α) : p.commit.Agrees p :=
  fun _ _ _ => commit_eq_ok_iff

theorem agrees_within (name : Construct) (p : Rule α) : (p.within name).Agrees p :=
  fun _ _ _ => within_eq_ok_iff

end Rule

namespace Source

open Rule Lexeme

/-! ### The parts of the creation of a table -/

instance : Tails createDefinition := by
  unfold createDefinition
  infer_instance

instance : Tails createDefinitions := by
  unfold createDefinitions
  infer_instance

instance : Tails optionSeparator := by
  unfold optionSeparator
  infer_instance

instance : Tails tableOption := by
  unfold tableOption
  infer_instance

/-- The parenthesis in front of the definitions of a table. -/
def tableOpening (temporary ifNotExists : Bool) (name : Text) : Rule (Bool × Bool × Text) := do
  gap0
  let _ ← char '('
  gap0
  return (temporary, ifNotExists, name)

/-- The name of a table and the parenthesis behind it. -/
def tableName (temporary ifNotExists : Bool) : Rule (Bool × Bool × Text) := do
  gap1
  let name ← identifier
  tableOpening temporary ifNotExists name

/-- What follows the word for a table, up to its first definition. -/
def tableWords (temporary : Bool) : Rule (Bool × Bool × Text) := do
  gap1
  let _ ← keyword "table"
  let ifNotExists ← Rule.optional (gap1 *> keywords "if not exists")
  tableName temporary ifNotExists.isSome

/-- The creation of a table up to its first definition. -/
def tableFront : Rule (Bool × Bool × Text) := do
  let _ ← keyword "create"
  let temporary ← Rule.optional (gap1 *> keyword "temporary")
  tableWords temporary.isSome

/-- The options of a table, up to the semicolon. -/
def tableOptions : Rule (List TableOption) := do
  let options ← Rule.many (optionSeparator *> tableOption)
  statementEnd
  return options

/-- What follows the definitions of a table. -/
def tableEnd : Rule (List TableOption) := do
  gap0
  let _ ← char ')'
  tableOptions

instance (temporary ifNotExists : Bool) (name : Text) :
    Tails (tableOpening temporary ifNotExists name) := by
  unfold tableOpening
  infer_instance

instance (temporary ifNotExists : Bool) : Tails (tableName temporary ifNotExists) := by
  unfold tableName
  infer_instance

instance (temporary : Bool) : Tails (tableWords temporary) := by
  unfold tableWords
  infer_instance

instance : Tails tableFront := by
  unfold tableFront
  infer_instance

instance : Tails tableOptions := by
  unfold tableOptions
  infer_instance

instance : Tails tableEnd := by
  unfold tableEnd
  infer_instance

theorem tableFront_eq : tableFront = tableStart >>= fun start => identifier >>= fun name =>
    tableOpening start.1 start.2 name := by
  simp only [tableStart, tableFront, tableWords, tableName, bind_assoc, pure_bind]

/-- A table is read in three parts: up to its first definition, its definitions, and the rest. -/
theorem createTable_eq_ok_iff {T : Table} {s rest : Text} :
    createTable s = .ok T rest ↔ ∃ m m', tableFront s = .ok (T.temporary, T.ifNotExists, T.name) m ∧
      createDefinitions m = .ok T.definitions m' ∧ tableEnd m' = .ok T.options rest := by
  have hparts : createTable.Agrees (tableFront >>= fun front => createDefinitions >>= fun Ds =>
      tableEnd >>= fun options => pure ⟨front.1, front.2.1, front.2.2, Ds, options⟩) := by
    -- what the parts are committed to and what they are called does not matter to what is read
    have hbody : (commit (within .createTable tableBody)).Agrees (identifier >>= fun name =>
        gap0 >>= fun _ => parenthesized createDefinitions >>= fun Ds =>
          Rule.many (optionSeparator *> tableOption) >>= fun options => statementEnd >>= fun _ =>
            pure (name, Ds, options)) :=
      (agrees_commit _).trans ((agrees_within _ _).trans
        ((Agrees.refl _).bind fun _ => (Agrees.refl _).bind fun _ => (agrees_within _ _).bind
          fun _ => Agrees.refl _))
    have htable := (Agrees.refl tableStart).bind fun start => hbody.bind fun body =>
      Agrees.refl (pure (⟨start.1, start.2, body.1, body.2.1, body.2.2⟩ : Table))
    simp only [parenthesized, bind_assoc, pure_bind] at htable
    simp only [tableFront_eq, tableOpening, tableEnd, tableOptions, bind_assoc, pure_bind]
    exact htable
  rw [hparts]
  constructor
  · intro h
    obtain ⟨front, m, hfront, h₁⟩ := bind_eq_ok_iff.1 h
    obtain ⟨Ds, m', hDs, h₂⟩ := bind_eq_ok_iff.1 h₁
    obtain ⟨options, m'', hoptions, hpure⟩ := bind_eq_ok_iff.1 h₂
    cases hpure
    exact ⟨m, m', hfront, hDs, hoptions⟩
  · rintro ⟨m, m', hfront, hDs, hend⟩
    rw [bind_of_ok hfront, bind_of_ok hDs, bind_of_ok hend]
    rfl

/-! ### Where columns are read -/

/-- A text starts with what is read as a column. -/
def IsColumn (d : Text) : Prop :=
  ∃ f rest, createDefinition d = .ok (.field f) rest

instance : DecidablePred IsColumn := fun d =>
  match h : createDefinition d with
  | .ok (.field f) rest => .isTrue ⟨f, rest, h⟩
  | .ok (.index _) _ | .ok (.foreignKey _) _ | .mismatch _ | .abort _ =>
    .isFalse fun ⟨f, rest, hf⟩ => by rw [h] at hf; cases hf

/-- Where the definitions of a list that starts here are read. -/
def definitionPlaces (s : Text) : List Text :=
  s :: match (createDefinition <* comma) s with
    | .ok _ rest => if _ : rest.length < s.length then definitionPlaces rest else []
    | .mismatch _ | .abort _ => []
termination_by s.length

/-- Where the columns of a table are read, if the text starts with the creation of one. -/
def columnPlaces (s : Text) : List Text :=
  match statement s, tableFront s with
  | .ok (.createTable _) _, .ok _ m => (definitionPlaces m).filter IsColumn
  | _, _ => []

theorem definitionPlaces_of_ok {s m next : Text} {D : Definition} {u : Unit}
    (hD : createDefinition s = .ok D m) (hcomma : comma m = .ok u next) :
    definitionPlaces s = s :: definitionPlaces next := by
  have hread : (createDefinition <* comma) s = .ok D next :=
    bind_eq_ok_iff.2 ⟨D, m, hD, bind_eq_ok_iff.2 ⟨u, next, hcomma, rfl⟩⟩
  have hlt : next.length < s.length :=
    Nat.lt_of_lt_of_le (Exchange.takes_comma m u next hcomma) (Tails.suffix s D m hD).length_le
  rw [definitionPlaces, hread]
  simp only [hlt, ↓reduceDIte]

theorem definitionPlaces_of_refuses {s m : Text} {D : Definition}
    (hD : createDefinition s = .ok D m) (hcomma : comma.Refuses m) : definitionPlaces s = [s] := by
  obtain ⟨why, hread⟩ : (createDefinition <* comma).Refuses s :=
    refuses_bind_of_ok hD (hcomma.bind _)
  rw [definitionPlaces, hread]

theorem mem_columnPlaces {s m d rest : Text} {T : Table} {front : Bool × Bool × Text}
    (hT : statement s = .ok (.createTable T) rest) (hfront : tableFront s = .ok front m) :
    d ∈ columnPlaces s ↔ d ∈ definitionPlaces m ∧ IsColumn d := by
  rw [columnPlaces, hT, hfront, List.mem_filter, decide_eq_true_eq]

/-- A column is read where the creation of a table is. -/
theorem exists_of_mem_columnPlaces {s d : Text} (h : d ∈ columnPlaces s) :
    ∃ T rest, statement s = .ok (.createTable T) rest := by
  rw [columnPlaces] at h
  split at h
  · next hT _ => exact ⟨_, _, hT⟩
  · cases h

end Source

namespace Exchange

open Rule Lexeme Source

variable {x : Exchange} {α β : Type} {p : Rule α} {L : Text → Prop} {s r m t : Text}

/-! ### Up to the first definition -/

/-- Where a phrase is refused although its first word is read as a name, the words behind the name
decide. -/
theorem staysOut_keywords {p : Rule Text} {phrase : String} {v w : Text} {ws : List Text} {a : Text}
    (hp : ∀ t z, t ≠ [] → (∀ c ∈ t, isWordChar c = true) → WordEnds z → p (t ++ z) = .ok t z)
    (hphrase : Text.words phrase.toList = v :: w :: ws) (hv : IsWord v) (h : x.Reads p s a m)
    (hbreaks : Breaks s) (hrest : x.StaysOut (gap1 >>= fun _ => wholeWords (w :: ws)) m) :
    x.StaysOut (keywords phrase) s := by
  have hwords : x.StaysOut (wholeWords (v :: w :: ws)) s := by
    refine StaysOut.bind (f := fun _ => gap1 >>= fun _ => wholeWords (w :: ws))
      (staysOut_wholeWord hv hbreaks) fun t rest hword hrefuses => ?_
    obtain ⟨u, rfl, rfl, hu, hends, hspells⟩ := exists_of_wholeWord hv hbreaks hword
    obtain ⟨-, ht, hchars, -⟩ := wordChars_of_wholeWord hv hword
    -- the name is the very word
    have hname := hp t (u ++ x.old) ht hchars (hends.append hu x.old)
    have hread : p (t ++ u ++ x.old) = .ok a (m ++ x.old) := h
    rw [List.append_assoc, hname, Outcome.ok.injEq] at hread
    obtain rfl := List.append_cancel_right hread.2
    rw [List.append_assoc]
    exact refuses_bind_of_ok (wholeWord_append hspells (hends.append hu x.new)) (hrest hrefuses)
  rw [keywords, hphrase]
  exact hwords.matched

section Front

variable (temporary ifNotExists : Bool) (name : Text)

theorem starts_tableOpening : (char '(' >>= fun _ => gap0 >>= fun _ =>
    pure (temporary, ifNotExists, name) : Rule (Bool × Bool × Text)).Starts fun c => c = '(' :=
  Starts.bind (starts_char rfl (by decide))

theorem meets_tableOpening :
    x.Meets (fun c => c = '(') (tableOpening temporary ifNotExists name) L :=
  meets_gap0_bind (meets_of_mark (starts_tableOpening _ _ _) fun c hc => hc ▸ by decide)
    (starts_tableOpening _ _ _) fun c hc => hc ▸ by decide

theorem KeepsComments.keeps_tableOpening (hx : x.KeepsComments) :
    x.Keeps (tableOpening temporary ifNotExists name) (· ≠ []) :=
  keeps_gap0_bind ((keeps_char '(').andThen fun _ => hx.keeps_gap0.map _)
    (starts_tableOpening _ _ _) fun c hc => hc ▸ by decide

theorem KeepsComments.keeps_tableName (hx : x.KeepsComments) :
    x.Keeps (tableName temporary ifNotExists) (· ≠ []) := by
  have hname : x.Keeps (identifier >>= tableOpening temporary ifNotExists) (· ≠ []) :=
    keeps_identifier.bind (fun _ => hx.keeps_tableOpening _ _ _) fun s name m b r _ h hr =>
      ne_nil_of_reads h hr
  exact keeps_gap1_bind hname starts_identifier.bind fun _ => isGapStart_of_isNameStart

theorem staysOut_ifNotExists_of_tableName {b : Bool × Bool × Text}
    (h : x.Reads (tableName temporary ifNotExists) s b r) :
    x.StaysOut (gap1 *> keywords "if not exists") s := by
  obtain ⟨g, m, hgap, h₁, -⟩ := reads_bind h
  obtain ⟨name, m', hname, hopening, -⟩ := reads_bind h₁
  obtain ⟨c, t, hgapTo, rfl, -⟩ := meets_tableOpening (L := fun _ => True) _ _ _ m' b r hopening trivial
  have hfirm := firm_of_starts starts_identifier (fun _ => isGapStart_of_isNameStart) hname
  refine Exchange.staysOut_gap1_bind (f := fun _ => keywords "if not exists")
    (gapTo_of_gap0 (gap0_of_gap1 hgap) hfirm) (staysOut_keywords (v := "if".toList)
      (fun _ _ => identifier_word) rfl (by decide) hname (breaks_of_identifier hname hgapTo.ne_nil) ?_)
  refine Exchange.staysOut_gap1_bind hgapTo (StaysOut.of_refuses fun z => ?_)
  exact ((ledBy_wholeWord "not".toList).bind _).refuses_cons (by decide) (t ++ z)

theorem KeepsComments.keeps_tableWords (hx : x.KeepsComments) :
    x.Keeps (tableWords temporary) (· ≠ []) := by
  have hexists : x.Keeps (Rule.optional (gap1 *> keywords "if not exists") >>= fun o =>
      tableName temporary o.isSome) (· ≠ []) := by
    have hphrase : x.Keeps (gap1 *> keywords "if not exists") (· ≠ []) :=
      keeps_gap1_bind (f := fun _ => keywords "if not exists") (keeps_keywords rfl (by decide))
        (heads_keywords rfl (by decide)).starts fun _ => isGapStart_of_isWordChar
    exact hphrase.optional_bind (fun _ => hx.keeps_tableName _ _)
      (fun _ _ _ _ h hr => ne_nil_of_reads h hr)
      fun _ _ _ _ h _ => staysOut_ifNotExists_of_tableName _ _ h
  have htable : x.Keeps (keyword "table") (· ≠ []) := keeps_keyword (by decide)
  have hword := htable.bind_starts (fun _ => hexists) fun _ => Starts.optional_bind (Starts.bind (f := fun _ => keywords "if not exists") starts_gap1)
      starts_gap1.bind
  exact keeps_gap1_bind hword (heads_keyword (by decide)).starts.bind
    fun _ => isGapStart_of_isWordChar

/-- **What stands before the definitions of a table survives the exchange.** -/
theorem KeepsComments.keeps_tableFront (hx : x.KeepsComments) : x.Keeps tableFront (· ≠ []) := by
  have htemporary : x.Keeps (Rule.optional (gap1 *> keyword "temporary") >>= fun o =>
      tableWords o.isSome) (· ≠ []) := by
    have hword : x.Keeps (gap1 *> keyword "temporary") (· ≠ []) :=
      keeps_gap1_bind (f := fun _ => keyword "temporary") (keeps_keyword (by decide))
        (heads_keyword (by decide)).starts fun _ => isGapStart_of_isWordChar
    refine hword.optional_bind (fun _ => hx.keeps_tableWords _)
      (fun _ _ _ _ h hr => ne_nil_of_reads h hr) fun s b r _ h hr => ?_
    obtain ⟨g, m, hgap, h₁, -⟩ := reads_bind h
    obtain ⟨w, m', hword, hrest, -⟩ := reads_bind h₁
    have hfirm := firm_of_starts (heads_keyword (by decide)).starts
      (fun _ => isGapStart_of_isWordChar) hword
    exact Exchange.staysOut_gap1_bind (f := fun _ => keyword "temporary")
      (gapTo_of_gap0 (gap0_of_gap1 hgap) hfirm) (StaysOut.of_refuses (refuses_of_heads
        (heads_keyword (by decide)) (ledBy_keyword _) (by decide) hword (ne_nil_of_reads hrest hr)))
  exact (keeps_keyword (by decide)).bind_starts (fun _ => htemporary) fun _ =>
    Starts.optional_bind (Starts.bind (f := fun _ => keyword "temporary") starts_gap1)
      starts_gap1.bind

end Front

/-! ### Behind the definitions -/

theorem starts_semicolon : (char ';' >>= fun _ => pure () : Rule Unit).Starts fun c => c = ';' :=
  Starts.bind (starts_char rfl (by decide))

theorem keeps_statementEnd : x.Keeps statementEnd L :=
  keeps_gap0_bind ((keeps_char ';').andThen fun _ => keeps_pure _) starts_semicolon
    fun c hc => hc ▸ by decide

theorem meets_statementEnd : x.Meets (fun c => c = ';') statementEnd L :=
  meets_gap0_bind (meets_of_mark starts_semicolon fun c hc => hc ▸ by decide) starts_semicolon
    fun c hc => hc ▸ by decide

/-- The value of an option. -/
def optionValue : Rule Text :=
  matched quotedString <|> span1 isOptionChar

/-- What follows the name of an option. -/
def optionEnd (name : Text) : Rule TableOption := do
  gap0
  let _ ← Rule.optional (char '=')
  gap0
  let value ← optionValue
  return { name, value }

/-- The name of an option. -/
def optionName : Rule Text :=
  keywords "character set" <|> bareIdentifier

theorem tableOption_eq : tableOption = Rule.optional (keyword "default" *> gap1) >>= fun _ =>
    optionName >>= optionEnd :=
  rfl

instance : Tails optionValue := by
  unfold optionValue
  infer_instance

instance (name : Text) : Tails (optionEnd name) := by
  unfold optionEnd
  infer_instance

instance : Tails optionName := by
  unfold optionName
  infer_instance

theorem isOptionChar_of_isWordChar {c : Char} (h : isWordChar c = true) : isOptionChar c = true := by
  simp [isOptionChar, h]

theorem starts_optionValue :
    optionValue.Starts fun c => Text.isNameQuote c = true ∨ isOptionChar c = true :=
  (starts_quotedString.matched.mono fun _ => .inl).orElse
    ((starts_span1 fun _ => isOptionChar_of_isWordChar).mono fun _ => .inr)

theorem keeps_optionValue : x.Keeps optionValue (· ≠ []) := by
  refine keeps_quotedString.matched.orElse (keeps_span1 _) fun s a r _ h _ => ?_
  obtain ⟨c, t, rfl, hc, -⟩ := Starts.ne_nil (starts_span1 fun _ => isOptionChar_of_isWordChar) h
  exact StaysOut.of_refuses fun z =>
    (refuses_quotedString (Text.isNameQuote_of_any (by decide) hc) (t ++ z)).matched

theorem KeepsComments.keeps_optionEnd (hx : x.KeepsComments) (name : Text) :
    x.Keeps (optionEnd name) (· ≠ []) := by
  have hvalue : x.Keeps (gap0 >>= fun _ => optionValue >>= fun value =>
      pure ({ name, value } : TableOption)) (· ≠ []) :=
    hx.keeps_gap0.bind_starts (fun _ => keeps_optionValue.map _) fun _ => starts_optionValue.bind
  have hequals := (keeps_char (x := x) (L := fun _ => True) '=').optional_bind (fun _ => hvalue)
    (fun _ _ _ _ _ _ => trivial) fun s b r _ h hr => staysOut_satisfy _ (ne_nil_of_reads h hr)
  exact hx.keeps_gap0.bind (fun _ => hequals) fun _ _ m b r _ h hr => ne_nil_of_reads h hr

/-- After a gap the first word ends. -/
def GapBreaks (x : Exchange) (r : Text) : Prop :=
  ∃ m, x.Reads gap0 r () m ∧ Breaks m

theorem GapBreaks.ne_nil (h : x.GapBreaks r) : r ≠ [] := by
  obtain ⟨m, hgap, hbreaks⟩ := h
  exact ne_nil_of_reads hgap hbreaks.ne_nil

theorem gapBreaks_of_optionEnd {name : Text} {o : TableOption} (h : x.Reads (optionEnd name) s o r)
    (hr : r ≠ []) : x.GapBreaks s := by
  obtain ⟨g, m, hgap, h₁, -⟩ := reads_bind h
  refine ⟨m, hgap, ?_⟩
  obtain ⟨e, m', hequals, h₂, -⟩ := reads_bind h₁
  rcases reads_optional hequals with ⟨c, -, hc⟩ | ⟨-, -, rfl⟩
  · rw [reads_char hc]
    exact breaks_cons (by decide) m'
  · obtain ⟨g', m'', hgap', h₃, -⟩ := reads_bind h₂
    -- without the sign the second gap is none
    have hsame : gap0 (m' ++ x.old) = .ok () (m'' ++ x.old) := hgap'
    rw [gap0_of_solid (solid_of_gap0 hgap), Outcome.ok.injEq] at hsame
    obtain rfl := List.append_cancel_right hsame.2
    obtain ⟨c, t, rfl, -, hbreaks⟩ := Starts.breaks starts_optionValue.bind h₃ hr
    exact hbreaks

theorem starts_optionName : optionName.Starts fun c => isWordChar c = true :=
  (heads_keywords (w := "character".toList) rfl (by decide)).starts.orElse starts_bareIdentifier

/-- Where a word is the name of an option, the phrase that starts with it stays out. -/
theorem KeepsComments.staysOut_characterSet (hx : x.KeepsComments) {a : Text} (hs : s <:+ x.whole)
    (h : x.Reads bareIdentifier s a m) (hm : x.GapBreaks m) :
    x.StaysOut (keywords "character set") s := by
  obtain ⟨c, t, rfl, -, hbreaks⟩ := Starts.breaks starts_bareIdentifier h hm.ne_nil
  refine staysOut_keywords (v := "character".toList) (fun _ _ => span1_append) rfl (by decide) h
    hbreaks ?_
  obtain ⟨m', hgap, hbreaks'⟩ := hm
  exact hx.staysOut_gap1_bind (f := fun _ => wholeWords ["set".toList]) (h.suffix.trans hs) hgap
    hbreaks'.ne_nil ((staysOut_wholeWord (by decide) hbreaks').map _)

theorem KeepsComments.keeps_optionName (hx : x.KeepsComments) :
    x.Keeps optionName x.GapBreaks :=
  ((keeps_keywords rfl (by decide)).mono fun _ h => h.ne_nil).orElse
    (keeps_bareIdentifier.mono fun _ h => h.ne_nil) fun _ _ _ hs h hm =>
      hx.staysOut_characterSet hs h hm

theorem starts_tableOption : tableOption.Starts fun c => isWordChar c = true := by
  rw [tableOption_eq]
  exact Starts.optional_bind (Starts.bind (f := fun _ => gap1)
    (heads_keyword (by decide)).starts) starts_optionName.bind

/-- The separator of options may be nothing, but an option is not. -/
theorem takes_separatedOption : Takes 1 (optionSeparator *> tableOption) :=
  (takes_zero optionSeparator).bind (f := fun _ => tableOption) fun _ => starts_tableOption.takes

/-- **An option of a table survives the exchange** in front of some text. -/
theorem KeepsComments.keeps_tableOption (hx : x.KeepsComments) : x.Keeps tableOption (· ≠ []) := by
  have hoption : x.Keeps (optionName >>= optionEnd) (· ≠ []) :=
    hx.keeps_optionName.bind hx.keeps_optionEnd fun _ _ _ _ _ _ h hr => gapBreaks_of_optionEnd h hr
  have hdefault : x.Keeps (keyword "default" *> gap1) (· ≠ []) :=
    (keeps_keyword (by decide)).bind_starts (f := fun _ => gap1) (fun _ => hx.keeps_gap1)
      fun _ => starts_gap1
  refine hdefault.optional_bind (f := fun _ => optionName >>= optionEnd) (fun _ => hoption)
    (fun _ _ _ _ h hr => ne_nil_of_reads h hr) fun s b r hs h hr => ?_
  obtain ⟨c, t, rfl, -, hbreaks⟩ := Starts.breaks starts_optionName.bind h hr
  refine StaysOut.bind (f := fun _ => gap1) (staysOut_keyword (by decide) hbreaks)
    fun t' rest hword hrefuses => ?_
  obtain ⟨u, heq, rfl, hu, hends, hspells⟩ := exists_of_wholeWord (by decide) hbreaks hword
  rw [heq] at hs ⊢
  rw [List.append_assoc]
  exact refuses_bind_of_ok (wholeWord_append hspells (hends.append hu x.new))
    (hx.staysOut_gap1 ((List.suffix_append t' u).trans hs) hu hrefuses)

theorem KeepsComments.keeps_option (hx : x.KeepsComments) :
    x.Keeps (optionSeparator *> tableOption) (· ≠ []) := by
  have hcomma : x.Keeps (Rule.optional (char ',') >>= fun _ => gap0) (· ≠ []) :=
    (keeps_char (L := fun _ => True) ',').optional_bind (fun _ => hx.keeps_gap0)
      (fun _ _ _ _ _ _ => trivial) fun s b r _ h hr => staysOut_satisfy _ (ne_nil_of_reads h hr)
  have hseparator : x.Keeps optionSeparator (· ≠ []) :=
    hx.keeps_gap0.bind (fun _ => hcomma) fun _ _ _ _ _ _ h hr => ne_nil_of_reads h hr
  exact hseparator.bind_starts (f := fun _ => tableOption) (fun _ => hx.keeps_tableOption)
    fun _ => starts_tableOption

/-- **What stands behind the definitions of a table survives the exchange.** -/
theorem KeepsComments.keeps_tableEnd (hx : x.KeepsComments) : x.Keeps tableEnd L := by
  have hmany : x.Keeps (Rule.many (optionSeparator *> tableOption)) (Leads fun c => c = ';') := by
    refine hx.keeps_option.many takes_separatedOption
      (fun _ _ _ _ h hr => ne_nil_of_reads h hr.ne_nil) ?_
    rintro s - ⟨c, t, hgap, rfl, -⟩
    exact StaysOut.of_refuses fun z => refuses_option (hgap.2 z)
  have hoptions : x.Keeps tableOptions L :=
    hmany.bind (fun _ => keeps_statementEnd.map _) fun _ options m b r _ h hr => by
      obtain ⟨u, m', hend, -⟩ := reads_bind h
      exact meets_statementEnd (L := fun _ => True) m u m' hend trivial
  exact keeps_gap0_bind ((keeps_char ')').andThen fun _ => hoptions)
    (Starts.bind (starts_char (C := fun c => c = ')') rfl (by decide))) fun c hc => hc ▸ by decide

theorem meets_tableEnd : x.Meets (fun c => c = ')') tableEnd L := by
  have hstart : (char ')' >>= fun _ => tableOptions).Starts fun c => c = ')' :=
    Starts.bind (starts_char rfl (by decide))
  exact meets_gap0_bind (meets_of_mark hstart fun c hc => hc ▸ by decide) hstart
    fun c hc => hc ▸ by decide

/-! ### Definitions -/

/-- Where a foreign key is read, no index is, whatever stands behind. -/
theorem refuses_indexDefinition {a : Text} (hs : s <:+ x.whole)
    (h : x.Reads foreignKeyDefinition s a r) (hr : r ≠ []) :
    indexDefinition.Refuses (s ++ x.new) := by
  rw [foreignKeyDefinition_eq] at h
  obtain ⟨u, h⟩ := reads_matched h
  obtain ⟨v, m, hfront, hoptions, -⟩ := reads_bind h
  have hm := ne_nil_of_reads hoptions hr
  have hwords : (keywords "foreign key" >>= fun _ => foreignKeyRest).Heads ["foreign".toList] :=
    Heads.bind (heads_keywords rfl (by decide))
  have hheads : foreignKeyFront.Heads ["constraint".toList, "foreign".toList] :=
    Heads.optional_bind heads_constraintStart hwords
  change (firstOf indexDefinitions).Refuses _
  refine refuses_firstOf fun p hp => ?_
  rcases List.mem_cons.1 hp with rfl | hp
  · exact refuses_constrained hwords (by decide) ((ledBy_keywords rfl).bind _) (by decide) hs hfront hm
  rcases List.mem_cons.1 hp with rfl | hp
  · exact refuses_constrained hwords (by decide) ((ledBy_keyword _).bind _) (by decide) hs hfront hm
  · obtain ⟨ws, hws, hled⟩ := exists_ledBy_of_mem (List.forall₂_drop 2 ledBy_indexDefinitions) hp
    have hdiff : ∀ ws ∈ indexWords.drop 2, ∀ v ∈ ["constraint".toList, "foreign".toList], ∀ w ∈ ws,
        Text.agreesWith v w = false := by
      decide
    exact refuses_of_heads hheads hled (hdiff ws hws) hfront hm x.new

/-- **What is no index and no foreign key does not become one.** -/
def ColumnStays (x : Exchange) (d : Text) : Prop :=
  x.StaysOut indexDefinition d ∧ x.StaysOut foreignKeyDefinition d

theorem columnStays_of_isColumn {d : Text} (h : IsColumn (d ++ x.new)) : x.ColumnStays d := by
  obtain ⟨f, rest, h⟩ := h
  rcases orElse_eq_ok h with h | ⟨hindex, h⟩
  · obtain ⟨i, -, hi⟩ := map_eq_ok_iff.1 h
    cases hi
  rcases orElse_eq_ok h with h | ⟨hkey, h⟩
  · obtain ⟨k, -, hk⟩ := map_eq_ok_iff.1 h
    cases hk
  exact ⟨fun _ => hindex.of_bind_pure, fun _ => hkey.of_bind_pure⟩

/-- A definition survives a fair exchange if it stays what it is. -/
theorem Fair.createDefinition_new (hx : x.Fair) {D : Definition} (hs : s <:+ x.whole)
    (hcolumn : IsColumn (s ++ x.old) → x.ColumnStays s) (hr : Leads isItemEnd r)
    (h : x.Reads createDefinition s D r) : createDefinition (s ++ x.new) = .ok D (r ++ x.new) := by
  have hD : createDefinition (s ++ x.old) = .ok D (r ++ x.old) := h
  rcases orElse_eq_ok h with h | ⟨hindex, h⟩
  · exact orElse_of_ok (keeps_indexDefinition.map _ s D r hs hr h) _
  rcases orElse_eq_ok h with h | ⟨hkey, h⟩
  · obtain ⟨k, hk, -⟩ := map_eq_ok_iff.1 h
    have hnew := (refuses_indexDefinition hs hk hr.ne_nil).map Definition.index
    refine (hnew.orElse_apply _).trans ?_
    exact orElse_of_ok (keeps_foreignKeyDefinition.map _ s D r hs hr h) _
  · obtain ⟨f, -, rfl⟩ := map_eq_ok_iff.1 h
    obtain ⟨hindexNew, hkeyNew⟩ := hcolumn ⟨f, _, hD⟩
    refine ((hindexNew.map _ hindex).orElse_apply _).trans ?_
    refine ((hkeyNew.map _ hkey).orElse_apply _).trans ?_
    exact (hx.keeps_fieldDefinition.within _).map _ s _ r hs hr h

theorem starts_createDefinition : createDefinition.Starts isNameStart := by
  have hkey : foreignKeyDefinition.Starts isNameStart := by
    rw [foreignKeyDefinition_eq]
    exact ((Starts.bind (Heads.optional_bind heads_constraintStart
      (Heads.bind (heads_keywords rfl (by decide)))).starts).matched).mono fun _ => .inr
  refine Starts.orElse ?_ (Starts.orElse (hkey.map _) ((starts_fieldDefinition.within _).map _))
  exact ((heads_firstOf heads_indexDefinitions).starts.mono fun _ => .inr).map _

theorem refuses_comma_of_leads (hr : Leads (fun c => c = ')') r) (z : Text) :
    comma.Refuses (r ++ z) := by
  obtain ⟨c, t, hgap, rfl, -⟩ := hr
  exact refuses_comma (hgap.2 z) (by decide)

variable {Ds : List Definition}

/-- The first definition, and behind a comma the other ones. -/
theorem reads_createDefinitions (hr : Leads (fun c => c = ')') r)
    (h : x.Reads createDefinitions s Ds r) : ∃ D m, x.Reads createDefinition s D m ∧
      Leads isItemEnd m ∧ m <:+ s ∧ (Ds = [D] ∧ r = m ∧
        definitionPlaces (s ++ x.old) = [s ++ x.old] ∨
      ∃ m' Ds', Ds = D :: Ds' ∧ x.Reads comma m () m' ∧ Firm m' ∧ m' <:+ m ∧
        x.Reads createDefinitions m' Ds' r ∧
          definitionPlaces (s ++ x.old) = (s ++ x.old) :: definitionPlaces (m' ++ x.old)) := by
  obtain ⟨D, m, hcommit, hm, hrest⟩ := reads_commaList h
  have hD : x.Reads createDefinition s D m := commit_eq_ok_iff.1 hcommit
  rcases hrest with ⟨rfl, rfl⟩ | ⟨m', Ds', rfl, hcomma, hDs, hm'⟩
  · exact ⟨D, r, hD, hr.mono fun _ => .inr, hm, .inl ⟨rfl, rfl,
      definitionPlaces_of_refuses hD (refuses_comma_of_leads hr x.old)⟩⟩
  · have hfirm : Firm m' := firm_of_starts starts_createDefinition.commit.bind
      (fun _ => isGapStart_of_isNameStart) hDs
    exact ⟨D, m, hD, (meets_comma (L := fun _ => True) m () m' hcomma trivial).mono fun _ => .inl,
      hm, .inr ⟨m', Ds', rfl, hcomma, hfirm, hm', hDs, definitionPlaces_of_ok hD hcomma⟩⟩

/-- **The definitions of a table survive a fair exchange** if its columns stay what they are. -/
theorem Fair.createDefinitions_new (hx : x.Fair) (hs : s <:+ x.whole)
    (hcolumns : ∀ d, d <:+ x.whole → d ++ x.old ∈ definitionPlaces (s ++ x.old) →
      IsColumn (d ++ x.old) → x.ColumnStays d)
    (hr : Leads (fun c => c = ')') r) (h : x.Reads createDefinitions s Ds r) :
    createDefinitions (s ++ x.new) = .ok Ds (r ++ x.new) := by
  induction Ds generalizing s with
  | nil => exact absurd rfl (ne_nil_of_commaList h)
  | cons D Ds ih =>
    obtain ⟨D', m, hD, hlead, hm, hrest⟩ := reads_createDefinitions hr h
    have hplace : s ++ x.old ∈ definitionPlaces (s ++ x.old) := by
      rw [definitionPlaces]
      exact List.mem_cons_self
    have hnew := commit_eq_ok_iff.2 (hx.createDefinition_new hs (hcolumns s hs hplace) hlead hD)
    rcases hrest with ⟨heq, rfl, -⟩ | ⟨m', Ds', heq, hcomma, hfirm, hm', hDs, hplaces⟩ <;> cases heq
    · exact commaList_singleton hnew (refuses_comma_of_leads hr x.new)
    · have hs' := hm'.trans (hm.trans hs)
      have htail := ih hs' (fun d hd hmem => hcolumns d hd (hplaces ▸ List.mem_cons_of_mem _ hmem)) hDs
      exact commaList_cons hnew (keeps_comma m () m' (hm.trans hs) hfirm hcomma) htail

/-- Where the same definitions are read with the new text behind, the columns stay what they are. -/
theorem Fair.isColumn_of_createDefinitions (hx : x.Fair) (hs : s <:+ x.whole)
    (hr : Leads (fun c => c = ')') r) (h : x.Reads createDefinitions s Ds r) {rest : Text}
    (hnew : createDefinitions (s ++ x.new) = .ok Ds rest) :
    ∀ d, d <:+ x.whole → d ++ x.old ∈ definitionPlaces (s ++ x.old) → IsColumn (d ++ x.old) →
      IsColumn (d ++ x.new) := by
  induction Ds generalizing s with
  | nil => exact absurd rfl (ne_nil_of_commaList h)
  | cons D Ds ih =>
    obtain ⟨D', m, hD, hlead, hm, hrest⟩ := reads_createDefinitions hr h
    obtain ⟨D'', mid, hcommit, hrestNew⟩ := exists_of_commaList hnew
    have hDnew : createDefinition (s ++ x.new) = .ok D'' mid := commit_eq_ok_iff.1 hcommit
    obtain rfl : D = D'' := by
      rcases hrestNew with ⟨heq, -⟩ | ⟨next, Ds', heq, -⟩ <;> cases heq <;> rfl
    obtain rfl : D = D' := by
      rcases hrest with ⟨heq, -⟩ | ⟨next, Ds', heq, -⟩ <;> cases heq <;> rfl
    have hhead : IsColumn (s ++ x.old) → IsColumn (s ++ x.new) := by
      rintro ⟨f, last, hf⟩
      have hD : createDefinition (s ++ x.old) = .ok D (m ++ x.old) := hD
      rw [hf, Outcome.ok.injEq] at hD
      exact ⟨f, mid, hD.1 ▸ hDnew⟩
    intro d hd hmem hcolumn
    rcases hrest with ⟨-, -, hplaces⟩ | ⟨m', Ds', heq, hcomma, hfirm, hm', hDs, hplaces⟩
    · rw [hplaces, List.mem_singleton] at hmem
      obtain rfl := List.append_cancel_right hmem
      exact hhead hcolumn
    rw [hplaces, List.mem_cons] at hmem
    rcases hmem with hsame | hmem
    · obtain rfl := List.append_cancel_right hsame
      exact hhead hcolumn
    -- the first definition ends where it did, so that the next one is read from the same place
    cases heq
    have hs' := hm.trans hs
    have hsame := hx.createDefinition_new hs (fun hc => columnStays_of_isColumn (hhead hc)) hlead hD
    rw [hDnew, Outcome.ok.injEq] at hsame
    rcases hrestNew with ⟨heq, -⟩ | ⟨next, Ds'', heq, hcommaNew, hDsNew⟩
    · exact absurd (List.cons.inj heq).2 (ne_nil_of_commaList hDs)
    · cases heq
      rw [hsame.2, keeps_comma m () m' hs' hfirm hcomma, Outcome.ok.injEq] at hcommaNew
      rw [← hcommaNew.2] at hDsNew
      exact ih (hm'.trans hs') hDs hDsNew d hd hmem hcolumn

/-! ### Tables -/

/-- The three parts of a table are read one behind the other. -/
theorem reads_createTable {T : Source.Table} (h : x.Reads createTable s T r) :
    ∃ m m', x.Reads tableFront s (T.temporary, T.ifNotExists, T.name) m ∧
      x.Reads createDefinitions m T.definitions m' ∧ Leads (fun c => c = ')') m' ∧
        x.Reads tableEnd m' T.options r ∧ m <:+ s ∧ m' <:+ m := by
  obtain ⟨mid, mid', hfront, hDs, hend⟩ := createTable_eq_ok_iff.1 h
  obtain ⟨v, rfl⟩ : r ++ x.old <:+ mid' := Tails.suffix _ _ _ hend
  obtain ⟨w, rfl⟩ : v ++ (r ++ x.old) <:+ mid := Tails.suffix _ _ _ hDs
  simp only [← List.append_assoc] at hfront hDs hend
  have hfront : x.Reads tableFront s (T.temporary, T.ifNotExists, T.name) (w ++ v ++ r) := hfront
  have hDs : x.Reads createDefinitions (w ++ v ++ r) T.definitions (v ++ r) := hDs
  exact ⟨_, _, hfront, hDs, meets_tableEnd (L := fun _ => True) _ _ _ hend trivial, hend,
    hfront.suffix, hDs.suffix⟩

variable {T : Source.Table}

/-- **A table survives a fair exchange** if its columns stay what they are. -/
theorem Fair.createTable_new (hx : x.Fair) (hs : s <:+ x.whole)
    (hcolumns : ∀ d, d <:+ x.whole → d ++ x.old ∈ columnPlaces (s ++ x.old) → x.ColumnStays d)
    (h : x.Reads statement s (.createTable T) r) :
    createTable (s ++ x.new) = .ok T (r ++ x.new) := by
  obtain ⟨m, m', hfront, hDs, hlead, hend, hm, hm'⟩ := reads_createTable (createTable_of_statement h)
  have hs' := hm.trans hs
  refine createTable_eq_ok_iff.2 ⟨m ++ x.new, m' ++ x.new,
    hx.comments.keeps_tableFront s _ m hs (ne_nil_of_reads hDs hlead.ne_nil) hfront,
    hx.createDefinitions_new hs' (fun d hd hmem hcolumn => ?_) hlead hDs,
    hx.comments.keeps_tableEnd (L := fun _ => True) m' _ r (hm'.trans hs') trivial hend⟩
  exact hcolumns d hd ((mem_columnPlaces h hfront).2 ⟨hmem, hcolumn⟩)

/-- Where the same table is read with the new text behind, its columns stay what they are. -/
theorem Fair.isColumn_of_createTable (hx : x.Fair) (hs : s <:+ x.whole)
    (h : x.Reads statement s (.createTable T) r) {rest : Text}
    (hnew : createTable (s ++ x.new) = .ok T rest) :
    ∀ d, d <:+ x.whole → d ++ x.old ∈ columnPlaces (s ++ x.old) → IsColumn (d ++ x.new) := by
  obtain ⟨m, m', hfront, hDs, hlead, -, hm, -⟩ := reads_createTable (createTable_of_statement h)
  obtain ⟨mid, mid', hfrontNew, hDsNew, -⟩ := createTable_eq_ok_iff.1 hnew
  rw [hx.comments.keeps_tableFront s _ m hs (ne_nil_of_reads hDs hlead.ne_nil) hfront,
    Outcome.ok.injEq] at hfrontNew
  rw [← hfrontNew.2] at hDsNew
  intro d hd hmem
  obtain ⟨hplace, hcolumn⟩ := (mem_columnPlaces h hfront).1 hmem
  exact hx.isColumn_of_createDefinitions (hm.trans hs) hlead hDs hDsNew d hd hplace hcolumn

end Exchange

end SchemaDelta
