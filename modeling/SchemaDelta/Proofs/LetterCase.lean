/-
**A schema is read the same in capitals and in small letters.**

Keywords are recognised in either case and every other text is kept as it is written, so that the
whole grammar is caseless: a schema text in lower case gives the statements of the text itself with
every text in them in lower case, or it is refused at the same place.

Main definitions:

* `SchemaDelta.Source.Statement.mapTexts` and its companions — a function applied to every text of
  a statement, of which the shape stays as it is.

Main results:

* `SchemaDelta.Source.caseless_createDefinition`, `SchemaDelta.Source.caseless_createTable` — the
  grammar of tables is caseless;
* `SchemaDelta.Source.caseless_statement` — so are all statements;
* `SchemaDelta.Source.read_lowered` — **so is the reading of a schema text**.
-/

import SchemaDelta.Proofs.Caseless
import SchemaDelta.Proofs.Key
import SchemaDelta.Source.Reading

set_option relaxedAutoImplicit false
set_option autoImplicit false

namespace SchemaDelta

namespace Source

/-! ### The texts of a statement -/

/-- Apply a function to the texts of a default value. -/
def DefaultValue.mapTexts (f : Text → Text) : DefaultValue → DefaultValue
  | .currentTimestamp => .currentTimestamp
  | .quoted quote body => .quoted quote (f body)
  | .bits digits => .bits (f digits)
  | .token text => .token (f text)

/-- Apply a function to the texts of a qualifier. -/
def Qualifier.mapTexts (f : Text → Text) : Qualifier → Qualifier
  | .notNull => .notNull
  | .null => .null
  | .primaryKey => .primaryKey
  | .autoIncrement => .autoIncrement
  | .characterSet name => .characterSet (f name)
  | .collate name => .collate (f name)
  | .uniqueKey => .uniqueKey
  | .key => .key
  | .default value => .default (value.mapTexts f)
  | .comment body => .comment (f body)
  | .onUpdate value => .onUpdate (value.mapTexts f)
  | .references text => .references (f text)

/-- Apply a function to the texts of a column definition. -/
def Field.mapTexts (f : Text → Text) (d : Field) : Field where
  name := f d.name
  type := f d.type
  args := d.args.map f
  typeQualifiers := d.typeQualifiers.map f
  qualifiers := d.qualifiers.map (Qualifier.mapTexts f)

/-- Apply a function to the texts of an index definition. -/
def Index.mapTexts (f : Text → Text) (i : Index) : Index where
  kind := i.kind
  name := i.name.map f
  before := i.before
  columns := i.columns.map f
  after := i.after

/-- Apply a function to the texts of a definition. -/
def Definition.mapTexts (f : Text → Text) : Definition → Definition
  | .index i => .index (i.mapTexts f)
  | .foreignKey text => .foreignKey (f text)
  | .field d => .field (d.mapTexts f)

/-- Apply a function to the texts of a table option. -/
def TableOption.mapTexts (f : Text → Text) (o : TableOption) : TableOption where
  name := f o.name
  value := f o.value

/-- Apply a function to the texts of the creation of a table. -/
def Table.mapTexts (f : Text → Text) (t : Table) : Table where
  temporary := t.temporary
  ifNotExists := t.ifNotExists
  name := f t.name
  definitions := t.definitions.map (Definition.mapTexts f)
  options := t.options.map (TableOption.mapTexts f)

/-- Apply a function to the texts of a statement. -/
def Statement.mapTexts (f : Text → Text) : Statement → Statement
  | .comment text => .comment (f text)
  | .use database => .use (f database)
  | .set text => .set (f text)
  | .dropTable text => .dropTable (f text)
  | .createDatabase name => .createDatabase (f name)
  | .createTable t => .createTable (t.mapTexts f)
  | .alterTable table body => .alterTable (f table) (f body)
  | .insert text => .insert (f text)
  | .delimiter token => .delimiter (f token)
  | .empty => .empty

open Rule Lexeme

/-! ### Indices and foreign keys -/

theorem caseless_indexWord : Caseless Text.lowered indexWord :=
  (caseless_keyword "key").orElse (caseless_keyword "index")

theorem caseless_indexWord? : Caseless (Option.map Text.lowered) indexWord? :=
  Caseless.optional (caseless_gap1.bind fun _ => caseless_indexWord)

theorem caseless_constraintStart : Caseless id constraintStart := by
  have hkeywords : Caseless Text.lowered
      (firstOf [keyword "primary", keyword "unique", keyword "foreign"]) := by
    refine caseless_firstOf fun p hp => ?_
    simp only [List.mem_cons, List.not_mem_nil, or_false] at hp
    rcases hp with rfl | rfl | rfl <;> exact caseless_keyword _
  have hsymbol : Caseless Text.lowered constraintSymbol :=
    hkeywords.absent.bind fun _ => caseless_identifier
  exact (caseless_keyword _).bind fun _ =>
    (Caseless.optional (caseless_gap1.bind fun _ => hsymbol)).bind fun _ => caseless_gap1

theorem caseless_indexName : Caseless Text.lowered indexName :=
  (caseless_keyword _).absent.bind fun _ => caseless_identifier

theorem caseless_indexType : Caseless id indexType := by
  refine (Caseless.optional ((caseless_keyword _).bind fun _ => caseless_gap1)).bind fun _ =>
    caseless_firstOf fun p hp => ?_
  simp only [List.mem_cons, List.not_mem_nil, or_false] at hp
  rcases hp with rfl | rfl | rfl <;> exact (caseless_keyword _).map fun _ => rfl

theorem caseless_digits1 : Caseless Text.lowered digits1 :=
  caseless_span1 (apply_toLower (by decide))

theorem caseless_indexColumns : Caseless (List.map Text.lowered) indexColumns := by
  have hlength : Caseless (Option.map Text.lowered) (optional (gap0 *> parenthesized digits1)) :=
    Caseless.optional (caseless_gap0.bind fun _ => caseless_parenthesized caseless_digits1)
  have hdirection : Caseless (Option.map Text.lowered)
      (optional (gap1 *> (keyword "asc" <|> keyword "desc"))) :=
    Caseless.optional (caseless_gap1.bind fun _ =>
      (caseless_keyword "asc").orElse (caseless_keyword "desc"))
  exact caseless_parenthesized (caseless_commaList (caseless_identifier.bind fun _ =>
    hlength.bind fun _ => hdirection.bind fun _ => mirrors_pure rfl))

theorem caseless_indexBody (kind : IndexKind) (named : Bool) :
    Caseless (Index.mapTexts Text.lowered) (indexBody kind named) := by
  have hname : Caseless (Option.map Text.lowered) (optionalName named) := by
    cases named with
    | true => exact Caseless.optional (caseless_gap1.bind fun _ => caseless_indexName)
    | false => exact mirrors_pure rfl
  have hmethod : Caseless id (optional (gap1 *> indexType)) := by
    have h := Caseless.optional (caseless_gap1.bind fun _ => caseless_indexType)
    rwa [Option.map_id] at h
  rw [indexBody_eq]
  exact hname.bind fun _ => hmethod.bind fun _ => caseless_gap0.bind fun _ =>
    caseless_indexColumns.bind fun _ => hmethod.bind fun _ => mirrors_pure rfl

theorem caseless_indexDefinition : Caseless (Index.mapTexts Text.lowered) indexDefinition := by
  refine caseless_firstOf fun p hp => ?_
  simp only [List.mem_cons, List.not_mem_nil, or_false] at hp
  rcases hp with rfl | rfl | rfl | rfl | rfl
  · exact caseless_constraintStart.optional.bind fun _ => (caseless_keywords _).bind fun _ =>
      caseless_indexBody _ _
  · exact caseless_constraintStart.optional.bind fun _ => (caseless_keyword _).bind fun _ =>
      caseless_indexWord?.bind fun _ => caseless_indexBody _ _
  · exact (caseless_keyword _).bind fun _ => caseless_indexWord?.bind fun _ =>
      caseless_indexBody _ _
  · exact (caseless_keyword _).bind fun _ => caseless_indexWord?.bind fun _ =>
      caseless_indexBody _ _
  · exact caseless_indexWord.bind fun _ => caseless_indexBody _ _

theorem caseless_matchOption : Caseless id matchOption := by
  refine (caseless_keyword _).bind fun _ => caseless_gap1.bind fun _ =>
    Mirrors.bind (g := Text.lowered) (caseless_firstOf fun p hp => ?_) fun _ => mirrors_pure rfl
  simp only [List.mem_cons, List.not_mem_nil, or_false] at hp
  rcases hp with rfl | rfl | rfl <;> exact caseless_keyword _

theorem caseless_actionOption : Caseless id actionOption := by
  refine (caseless_keyword _).bind fun _ => caseless_gap1.bind fun _ =>
    ((caseless_keyword "delete").orElse (caseless_keyword "update")).bind fun _ =>
      caseless_gap1.bind fun _ =>
        Mirrors.bind (g := Text.lowered) (caseless_firstOf fun p hp => ?_) fun _ => mirrors_pure rfl
  simp only [List.mem_cons, List.not_mem_nil, or_false] at hp
  rcases hp with rfl | rfl | rfl | rfl | rfl
  · exact caseless_keyword _
  · exact caseless_keyword _
  · exact caseless_keywords _
  · exact caseless_keywords _
  · exact caseless_keywords _

theorem caseless_referenceDefinition : Caseless id referenceDefinition :=
  (caseless_keyword _).bind fun _ => caseless_gap1.bind fun _ => caseless_identifier.bind fun _ =>
    caseless_gap0.bind fun _ => caseless_indexColumns.bind fun _ =>
      (Caseless.many (caseless_gap1.bind fun _ =>
        caseless_matchOption.orElse caseless_actionOption)).bind fun _ => mirrors_pure rfl

theorem caseless_foreignKeyDefinition : Caseless Text.lowered foreignKeyDefinition :=
  Caseless.matched (caseless_constraintStart.optional.bind fun _ =>
    (caseless_keywords _).bind fun _ =>
      (Caseless.optional (caseless_gap1.bind fun _ => caseless_indexName)).bind fun _ =>
        caseless_gap0.bind fun _ => caseless_indexColumns.bind fun _ =>
          caseless_gap1.bind fun _ => caseless_referenceDefinition)

/-! ### Columns -/

theorem caseless_number : Caseless Text.lowered number := by
  have hsign : Caseless (Option.map Char.toLower) (optional (oneOf "+-")) :=
    (caseless_satisfy (apply_toLower (by decide))).optional
  have hfraction : Caseless (Option.map Text.lowered) (optional (char '.' *> span Char.isDigit)) :=
    Caseless.optional ((caseless_char (by decide)).bind fun _ =>
      caseless_span (apply_toLower (by decide)))
  have hexponent : Caseless (Option.map Text.lowered) (optional do
      let _ ← oneOf "eE"
      let _ ← optional (oneOf "+-")
      digits1) :=
    Caseless.optional (Mirrors.bind (g := Char.toLower) (caseless_satisfy (apply_toLower (by decide)))
      fun _ => hsign.bind fun _ => caseless_digits1)
  exact Caseless.matched (g := id) (hsign.bind fun _ => caseless_digits1.bind fun _ =>
    hfraction.bind fun _ => hexponent.bind fun _ => mirrors_pure rfl)

theorem caseless_typeArg : Caseless Text.lowered typeArg := by
  refine caseless_firstOf fun p hp => ?_
  simp only [List.mem_cons, List.not_mem_nil, or_false] at hp
  rcases hp with rfl | rfl | rfl
  · exact caseless_number
  · exact caseless_quotedString.matched
  · exact caseless_bareIdentifier

theorem caseless_typeQualifier : Caseless Text.lowered typeQualifier := by
  refine caseless_firstOf fun p hp => ?_
  simp only [List.mem_cons, List.not_mem_nil, or_false] at hp
  rcases hp with rfl | rfl | rfl | rfl <;> exact caseless_keyword _

theorem caseless_emptyCall : Caseless id emptyCall :=
  (caseless_char (by decide)).bind fun _ => caseless_gap0.bind fun _ =>
    caseless_digits1.optional.bind fun _ => caseless_gap0.bind fun _ =>
      (caseless_char (by decide)).bind fun _ => mirrors_pure rfl

theorem caseless_currentTime : Caseless id currentTime := by
  refine Caseless.orElse ?_ ?_
  · exact (caseless_keyword _).bind fun _ =>
      (Caseless.optional (caseless_gap0.bind fun _ => caseless_emptyCall)).bind fun _ =>
        mirrors_pure rfl
  · exact (caseless_keyword _).bind fun _ => caseless_gap0.bind fun _ => caseless_emptyCall

theorem caseless_bitLiteral : Caseless Text.lowered bitLiteral :=
  (caseless_letters _).bind fun _ => (caseless_char (by decide)).bind fun _ =>
    (caseless_spanUpTo 64 (apply_toLower (by decide))).bind fun _ =>
      (caseless_char (by decide)).bind fun _ => mirrors_pure rfl

theorem isTokenChar_toLower (c : Char) : isTokenChar c.toLower = isTokenChar c :=
  apply_toLower (by decide) c

theorem caseless_defaultValue : Caseless (DefaultValue.mapTexts Text.lowered) defaultValue := by
  refine caseless_firstOf fun p hp => ?_
  simp only [List.mem_cons, List.not_mem_nil, or_false] at hp
  rcases hp with rfl | rfl | rfl | rfl
  · exact caseless_currentTime.map fun _ => rfl
  · exact caseless_quotedString.map fun _ => rfl
  · exact caseless_bitLiteral.map fun _ => rfl
  · exact (caseless_span1 isTokenChar_toLower).map fun _ => rfl

theorem caseless_fieldQualifier : Caseless (Qualifier.mapTexts Text.lowered) fieldQualifier := by
  have hcharacterSet : Caseless Text.lowered characterSet :=
    ((caseless_keywords "character set").orElse (caseless_keyword "charset")).bind fun _ =>
      caseless_gap1.bind fun _ => caseless_identifier
  have hcollation : Caseless Text.lowered collation :=
    (caseless_keyword _).bind fun _ => caseless_gap1.bind fun _ => caseless_identifier
  have hdefault : Caseless (DefaultValue.mapTexts Text.lowered) defaultClause :=
    (caseless_keyword _).bind fun _ => caseless_gap1.bind fun _ => caseless_defaultValue.within _
  have hcomment : Caseless Text.lowered commentClause :=
    (caseless_keyword _).bind fun _ => caseless_gap1.bind fun _ =>
      caseless_quotedString.bind fun _ => mirrors_pure rfl
  have honUpdate : Caseless (DefaultValue.mapTexts Text.lowered) onUpdateClause :=
    (caseless_keywords _).bind fun _ => caseless_gap1.bind fun _ => caseless_defaultValue
  refine caseless_firstOf fun p hp => ?_
  simp only [fieldQualifiers, List.mem_cons, List.not_mem_nil, or_false] at hp
  rcases hp with rfl | rfl | rfl | rfl | rfl | rfl | rfl | rfl | rfl | rfl | rfl | rfl
  · exact (caseless_keywords _).map fun _ => rfl
  · exact (caseless_keyword _).map fun _ => rfl
  · exact (caseless_keywords _).map fun _ => rfl
  · exact ((caseless_keyword "auto_increment").orElse (caseless_keywords "auto increment")).map
      fun _ => rfl
  · exact hcharacterSet.map fun _ => rfl
  · exact hcollation.map fun _ => rfl
  · exact ((caseless_keyword "unique").bind fun _ => caseless_indexWord?).map fun _ => rfl
  · exact caseless_indexWord.map fun _ => rfl
  · exact hdefault.map fun _ => rfl
  · exact hcomment.map fun _ => rfl
  · exact honUpdate.map fun _ => rfl
  · exact caseless_referenceDefinition.matched.map fun _ => rfl

theorem caseless_fieldDefinition : Caseless (Field.mapTexts Text.lowered) fieldDefinition := by
  have hargs : Caseless (Option.map (List.map Text.lowered))
      (optional (gap0 *> parenthesized (commaList typeArg))) :=
    Caseless.optional (caseless_gap0.bind fun _ =>
      caseless_parenthesized (caseless_commaList caseless_typeArg))
  refine caseless_identifier.bind fun _ => caseless_gap1.bind fun _ =>
    caseless_bareIdentifier.bind fun _ => hargs.bind fun args =>
      (Caseless.many (caseless_gap1.bind fun _ => caseless_typeQualifier)).bind fun _ =>
        (Caseless.many (caseless_gap1.bind fun _ => caseless_fieldQualifier)).bind fun _ =>
          mirrors_pure ?_
  cases args <;> rfl

/-! ### Statements -/

/-- **Whatever stands in the parenthesis of a table is read in either case.** -/
theorem caseless_createDefinition :
    Caseless (Definition.mapTexts Text.lowered) createDefinition := by
  refine caseless_firstOf fun p hp => ?_
  simp only [List.mem_cons, List.not_mem_nil, or_false] at hp
  rcases hp with rfl | rfl | rfl
  · exact caseless_indexDefinition.map fun _ => rfl
  · exact caseless_foreignKeyDefinition.map fun _ => rfl
  · exact (caseless_fieldDefinition.within _).map fun _ => rfl

theorem caseless_tableOption : Caseless (TableOption.mapTexts Text.lowered) tableOption := by
  have hoption : ∀ c : Char, isOptionChar c.toLower = isOptionChar c :=
    apply_toLower (by decide)
  exact (Caseless.optional ((caseless_keyword _).bind fun _ => caseless_gap1)).bind fun _ =>
    ((caseless_keywords "character set").orElse caseless_bareIdentifier).bind fun _ =>
      caseless_gap0.bind fun _ => (caseless_char (by decide)).optional.bind fun _ =>
        caseless_gap0.bind fun _ =>
          (caseless_quotedString.matched.orElse (caseless_span1 hoption)).bind fun _ =>
            mirrors_pure rfl

/-- The parts of a table behind its first words, with their texts in lower case. -/
def loweredBody (body : Text × List Definition × List TableOption) :
    Text × List Definition × List TableOption :=
  (body.1.lowered, body.2.1.map (Definition.mapTexts Text.lowered),
    body.2.2.map (TableOption.mapTexts Text.lowered))

theorem caseless_tableStart : Caseless id tableStart := by
  refine (caseless_keyword _).bind fun _ =>
    (Caseless.optional (caseless_gap1.bind fun _ => caseless_keyword _)).bind fun temporary =>
      caseless_gap1.bind fun _ => (caseless_keyword _).bind fun _ =>
        (Caseless.optional (caseless_gap1.bind fun _ => caseless_keywords _)).bind fun ifNotExists =>
          caseless_gap1.bind fun _ => mirrors_pure ?_
  rw [Option.isSome_map, Option.isSome_map]
  rfl

theorem caseless_tableBody : Caseless loweredBody tableBody := by
  have hdefinitions : Caseless (List.map (Definition.mapTexts Text.lowered))
      (parenthesized createDefinitions) :=
    caseless_parenthesized (caseless_comma.sepBy1 caseless_createDefinition.commit)
  have hseparator : Caseless id optionSeparator :=
    caseless_gap0.bind fun _ => (caseless_char (by decide)).optional.bind fun _ => caseless_gap0
  exact caseless_identifier.bind fun _ => caseless_gap0.bind fun _ =>
    (hdefinitions.within _).bind fun _ =>
      (Caseless.many (hseparator.bind fun _ => caseless_tableOption)).bind fun _ =>
        caseless_statementEnd.bind fun _ => mirrors_pure rfl

theorem caseless_createTable : Caseless (Table.mapTexts Text.lowered) createTable :=
  caseless_tableStart.bind fun _ => (caseless_tableBody.within _).commit.bind fun _ =>
    mirrors_pure rfl

theorem caseless_verbatimEnd : Caseless Text.lowered verbatimEnd :=
  caseless_verbatim.bind fun _ => caseless_statementEnd.bind fun _ => mirrors_pure rfl

/-- **Every statement is read in either case.** -/
theorem caseless_statement : Caseless (Statement.mapTexts Text.lowered) statement := by
  refine caseless_firstOf fun p hp => ?_
  simp only [statements, List.mem_cons, List.not_mem_nil, or_false] at hp
  rcases hp with rfl | rfl | rfl | rfl | rfl | rfl | rfl | rfl | rfl | rfl
  · exact caseless_comment.map fun _ => rfl
  · have hname : Caseless Text.lowered (identifier <* statementEnd) :=
      caseless_identifier.bind fun _ => caseless_statementEnd.bind fun _ => mirrors_pure rfl
    exact (caseless_keyword _).bind fun _ => caseless_gap1.bind fun _ =>
      (hname.within _).bind fun _ => mirrors_pure rfl
  · exact (caseless_keyword _).bind fun _ => caseless_verbatimEnd.bind fun _ => mirrors_pure rfl
  · exact (caseless_keywords _).bind fun _ => caseless_verbatimEnd.bind fun _ => mirrors_pure rfl
  · exact (caseless_keyword _).bind fun _ => caseless_gap1.bind fun _ =>
      ((caseless_keyword "database").orElse (caseless_keyword "schema")).bind fun _ =>
        (Caseless.optional (caseless_gap1.bind fun _ => caseless_keywords _)).bind fun _ =>
          caseless_gap1.bind fun _ => caseless_identifier.bind fun _ =>
            caseless_verbatimEnd.bind fun _ => mirrors_pure rfl
  · exact caseless_createTable.map fun _ => rfl
  · exact (caseless_keywords _).bind fun _ => caseless_gap1.bind fun _ =>
      caseless_identifier.bind fun _ => caseless_verbatimEnd.bind fun _ => mirrors_pure rfl
  · exact (caseless_keyword _).bind fun _ => caseless_verbatimEnd.bind fun _ => mirrors_pure rfl
  · have hspace : ∀ c : Char, (!isSpace c.toLower) = !isSpace c :=
      apply_toLower (f := fun c => !isSpace c) (by decide)
    exact (caseless_keyword _).bind fun _ => caseless_spaces.bind fun _ =>
      (caseless_span1 hspace).bind fun _ => mirrors_pure rfl
  · exact (caseless_char (by decide)).map fun _ => rfl

/-! ### Whole texts -/

/-- The first statement of a text is read in the same way in lower case. -/
theorem statement_trimStart_lowered {text t : Text} {c : Char} {o : Outcome Statement}
    (htrim : text.trimStart = c :: t) (hst : statement (c :: t) = o) :
    text.lowered.trimStart = c.toLower :: t.lowered ∧
      statement (c.toLower :: t.lowered) = o.lowered (Statement.mapTexts Text.lowered) := by
  refine ⟨?_, hst ▸ caseless_statement (c :: t)⟩
  rw [Text.trimStart_lowered, htrim, Text.lowered_cons]

/-- A whole text gives its statements with every text in lower case, or a mismatch at the same
place. -/
theorem readStatements_lowered (text : Text) :
    readStatements text.lowered =
      ((readStatements text).map (List.map (Statement.mapTexts Text.lowered))).mapError
        Mismatch.lowered := by
  -- by the recursion of the reading, one statement after the other
  fun_induction readStatements text with
  | case1 text htrim =>
      rw [readStatements, Text.trimStart_lowered, htrim]
      rfl
  | case2 text c t htrim st rest hst hlt ih =>
      obtain ⟨htrim', hst'⟩ := statement_trimStart_lowered htrim hst
      have hlt' : rest.lowered.length < text.lowered.length := by simpa using hlt
      rw [readStatements, htrim']
      simp only [hst', Outcome.lowered, hlt', ↓reduceDIte, ih]
      cases readStatements rest <;> rfl
  | case3 text c t htrim st rest hst hnot =>
      obtain ⟨htrim', hst'⟩ := statement_trimStart_lowered htrim hst
      have hnot' : ¬ rest.lowered.length < text.lowered.length := by simpa using hnot
      rw [readStatements, htrim']
      simp only [hst', Outcome.lowered, hnot', ↓reduceDIte]
      rfl
  | case4 text c t htrim why hst =>
      obtain ⟨htrim', hst'⟩ := statement_trimStart_lowered htrim hst
      rw [readStatements, htrim']
      simp only [hst', Outcome.lowered]
      rfl
  | case5 text c t htrim why hst =>
      obtain ⟨htrim', hst'⟩ := statement_trimStart_lowered htrim hst
      rw [readStatements, htrim']
      simp only [hst', Outcome.lowered]
      rfl

theorem count_lowered {m : Char} (hm : IsMark m) (t : Text) : t.lowered.count m = t.count m := by
  induction t with
  | nil => rfl
  | cons c t ih =>
      have hc : (c.toLower == m) = (c == m) := by
        rw [Bool.eq_iff_iff, beq_iff_eq, beq_iff_eq, hm.toLower_eq_iff]
      rw [Text.lowered_cons, List.count_cons, List.count_cons, ih, hc]

theorem length_lastLine_lowered (t : Text) : t.lowered.lastLine.length = t.lastLine.length := by
  have hline : ∀ c : Char, (c.toLower != '\n') = (c != '\n') :=
    apply_toLower (f := fun c => c != '\n') (by decide)
  have hreverse : t.lowered.reverse = Text.lowered t.reverse := List.map_reverse.symm
  rw [Text.lastLine, Text.lastLine, List.length_reverse, List.length_reverse, hreverse,
    Text.takeWhile_lowered hline, Text.length_lowered]

/-- The places of a text are those of the text in lower case. -/
theorem ofByte_lowered (text : Text) (n : Nat) : Place.ofByte text.lowered n = Place.ofByte text n := by
  have hbefore : ∀ k, text.lowered.upToByte k = Text.lowered (text.upToByte k) := by
    intro k
    rw [Text.upToByte, Text.upToByte, Text.splitAtByte?_lowered]
    cases Text.splitAtByte? k text <;> rfl
  simp only [Place.ofByte, Text.byteLength_lowered, hbefore, count_lowered (m := '\n') (by decide),
    length_lastLine_lowered]

/-- **A schema text is read the same in capitals and in small letters**: in lower case it gives the
same statements with every text in lower case, or it is refused at the same position, line and
column. -/
theorem read_lowered (text : Text) :
    match read text, read text.lowered with
    | .ok ss, .ok ss' => ss' = ss.map (Statement.mapTexts Text.lowered)
    | .error (.malformed place _), .error (.malformed place' _) => place' = place
    | _, _ => False := by
  rw [read, read, readStatements_lowered]
  cases readStatements text with
  | ok ss => rfl
  | error why =>
      change Place.ofByte text.lowered (text.lowered.byteLength - why.rest.lowered.byteLength) =
        Place.ofByte text (text.byteLength - why.rest.byteLength)
      rw [Text.byteLength_lowered, Text.byteLength_lowered, ofByte_lowered]

end Source

end SchemaDelta
