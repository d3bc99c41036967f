/-
**A schema text is read without a fault.**

The grammar is built from repetitions, and what is repeated may start with something that reads
nothing, such as the separator between the options of a table.  It is built from keywords too, and
a text in any script may agree with one.  This module goes through the grammar and shows of every
rule that it is faultless: each round of each repetition takes at least one byte, and nothing is cut
inside of a character.  So is the reading of a whole text, which goes on behind each statement and
cuts the text once more where it reports that one does not fit.

Main definitions:

* `SchemaDelta.Source.RoundsAdvance` — the repetitions of the grammar, and that they go on;
* `SchemaDelta.Source.executeStatements`, `SchemaDelta.Source.execute` — the reading of a text with
  both faults made explicit.

Main results:

* `SchemaDelta.Lexeme.cutsClean_of_mem` — no keyword of the schema language ends inside of a
  character;
* `SchemaDelta.Source.faultless_createTable`, `SchemaDelta.Source.faultless_statement` — **every
  statement is read without a fault**;
* `SchemaDelta.Source.executeStatements_eq` — so are the statements of a text;
* `SchemaDelta.Source.exists_execution_read` — **reading a schema text always goes on and never cuts
  a character**.
-/

import SchemaDelta.Proofs.Execution
import SchemaDelta.Proofs.Exchange.Reading
import SchemaDelta.Proofs.Keyword

set_option relaxedAutoImplicit false
set_option autoImplicit false

namespace SchemaDelta

/-! ### The words and marks of the schema language -/

namespace Lexeme

open Rule

theorem faultless_comment : comment.Faultless := by
  have hline : lineComment.Faultless :=
    Faultless.matched (((faultless_literal "#").orElse (faultless_literal "--")).bind fun _ =>
      faultless_span _)
  have hblock : blockComment.Faultless :=
    Faultless.matched ((faultless_literal "/*").bind fun _ => (faultless_upTo "*/").bind fun _ =>
      faultless_literal "*/")
  exact hline.orElse hblock

theorem faultless_spaces : spaces.Faultless :=
  faultless_span1 _

/-- A gap goes on over white space and comments, each of which takes something. -/
theorem faultless_gap0 : gap0.Faultless :=
  ((faultless_spaces.orElse faultless_comment).many takes_gap).discard

theorem faultless_gap1 : gap1.Faultless :=
  ((faultless_spaces.orElse faultless_comment).many1 takes_gap).discard

theorem faultless_parenthesized {α : Type} {inner : Rule α} (h : inner.Faultless) :
    (parenthesized inner).Faultless :=
  (faultless_char '(').bind fun _ => faultless_gap0.bind fun _ => h.bind fun _ =>
    faultless_gap0.bind fun _ => (faultless_char ')').bind fun _ => faultless_pure _

theorem faultless_comma : comma.Faultless :=
  faultless_gap0.bind fun _ => (faultless_char ',').bind fun _ => faultless_gap0

theorem faultless_commaList {α : Type} {item : Rule α} (h : item.Faultless) (htakes : Takes 1 item) :
    (commaList item).Faultless :=
  faultless_comma.sepBy1 h Exchange.takes_comma htakes

theorem faultless_wholeWord {word : Text} (hword : CutsClean word) : (wholeWord word).Faultless :=
  (faultless_letters hword).bind fun _ => (faultless_satisfy isWordChar).absent.bind fun _ =>
    faultless_pure _

/-- No keyword of the schema language ends inside of a character, and neither does the letter of a
number of bits. -/
theorem cutsClean_of_mem {word : String} (h : word ∈ "b" :: vocabulary) :
    CutsClean word.toList := by
  have hall : ∀ word ∈ "b" :: vocabulary, CutsClean word.toList := by decide +kernel
  exact hall word h

theorem faultless_keyword {word : String} (hword : word ∈ vocabulary) : (keyword word).Faultless :=
  faultless_wholeWord (cutsClean_of_mem (List.mem_cons_of_mem "b" hword))

theorem faultless_wholeWords {ws : List Text} (hws : ∀ w ∈ ws, CutsClean w) :
    (wholeWords ws).Faultless := by
  induction ws with
  | nil => exact faultless_pure ()
  | cons w ws ih =>
    have hw := faultless_wholeWord (hws w List.mem_cons_self)
    cases ws with
    | nil => exact hw.discard
    | cons v ws =>
      exact hw.bind fun _ => faultless_gap1.bind fun _ =>
        ih fun u hu => hws u (List.mem_cons_of_mem w hu)

theorem faultless_keywords {phrase : String}
    (hphrase : ∀ w ∈ Text.words phrase.toList, w ∈ vocabulary.map String.toList) :
    (keywords phrase).Faultless := by
  refine (faultless_wholeWords fun w hw => ?_).matched
  obtain ⟨word, hword, rfl⟩ := List.mem_map.1 (hphrase w hw)
  exact cutsClean_of_mem (List.mem_cons_of_mem "b" hword)

theorem faultless_bareIdentifier : bareIdentifier.Faultless :=
  faultless_span1 _

theorem faultless_identifier : identifier.Faultless := by
  have hquoted : ∀ quote : Char, (namedBetween quote).Faultless := fun quote =>
    (faultless_char quote).bind fun _ => (faultless_span1 _).bind fun _ =>
      (faultless_char quote).bind fun _ => faultless_pure _
  exact ((hquoted backtick).orElse ((hquoted singleQuote).orElse (hquoted doubleQuote))).matched.orElse
    faultless_bareIdentifier

theorem faultless_quotedString : quotedString.Faultless :=
  ((faultless_quotedBody singleQuote).map _).orElse ((faultless_quotedBody doubleQuote).map _)

theorem faultless_verbatimPiece : (firstOf verbatimPieces).Faultless := by
  refine faultless_firstOf (List.cons_ne_nil _ _) fun p hp => ?_
  simp only [verbatimPieces, List.mem_cons, List.not_mem_nil, or_false] at hp
  rcases hp with rfl | rfl | rfl | rfl | rfl | rfl
  · exact faultless_comment.discard
  · exact (faultless_quotedBody _).discard
  · exact (faultless_quotedBody _).discard
  · exact (faultless_quotedBody _).discard
  · exact (faultless_span1 _).discard
  · exact (faultless_oneOf _).discard

/-- What is kept as it is written goes on piece by piece, none of which is empty. -/
theorem faultless_verbatim : verbatim.Faultless :=
  (faultless_verbatimPiece.many Exchange.takes_verbatimPiece).matched

theorem faultless_statementEnd : statementEnd.Faultless :=
  faultless_gap0.bind fun _ => (faultless_char ';').bind fun _ => faultless_pure ()

end Lexeme

namespace Source

open Rule Lexeme

/-! ### Indices and foreign keys -/

theorem faultless_indexWord : indexWord.Faultless :=
  (faultless_keyword (by decide)).orElse (faultless_keyword (by decide))

theorem faultless_indexWord? : indexWord?.Faultless :=
  Faultless.optional (faultless_gap1.bind fun _ => faultless_indexWord)

theorem faultless_constraintStart : constraintStart.Faultless := by
  have hkeywords : (firstOf [keyword "primary", keyword "unique", keyword "foreign"]).Faultless :=
    (faultless_keyword (by decide)).orElse ((faultless_keyword (by decide)).orElse
      (faultless_keyword (by decide)))
  have hsymbol : constraintSymbol.Faultless := hkeywords.absent.bind fun _ => faultless_identifier
  exact (faultless_keyword (by decide)).bind fun _ =>
    (Faultless.optional (faultless_gap1.bind fun _ => hsymbol)).bind fun _ => faultless_gap1

theorem faultless_indexName : indexName.Faultless :=
  (faultless_keyword (by decide)).absent.bind fun _ => faultless_identifier

theorem faultless_indexType : indexType.Faultless := by
  have husing : (keyword "using" *> gap1).Faultless :=
    (faultless_keyword (by decide)).bind fun _ => faultless_gap1
  exact husing.optional.bind fun _ => ((faultless_keyword (by decide)).map _).orElse
    (((faultless_keyword (by decide)).map _).orElse ((faultless_keyword (by decide)).map _))

theorem faultless_indexColumn : indexColumn.Faultless := by
  have hlength : (optional (gap0 *> parenthesized digits1)).Faultless :=
    Faultless.optional (faultless_gap0.bind fun _ => faultless_parenthesized (faultless_span1 _))
  have hdirection : (optional (gap1 *> (keyword "asc" <|> keyword "desc"))).Faultless :=
    Faultless.optional (faultless_gap1.bind fun _ =>
      (faultless_keyword (by decide)).orElse (faultless_keyword (by decide)))
  exact faultless_identifier.bind fun _ => hlength.bind fun _ => hdirection.bind fun _ =>
    faultless_pure _

theorem faultless_indexColumns : indexColumns.Faultless :=
  faultless_parenthesized
    (faultless_commaList faultless_indexColumn Exchange.starts_indexColumn.takes)

theorem faultless_indexBody (kind : IndexKind) (named : Bool) : (indexBody kind named).Faultless := by
  have hname : (optionalName named).Faultless := by
    cases named with
    | true => exact Faultless.optional (faultless_gap1.bind fun _ => faultless_indexName)
    | false => exact faultless_pure _
  have hmethod : (optional (gap1 *> indexType)).Faultless :=
    Faultless.optional (faultless_gap1.bind fun _ => faultless_indexType)
  rw [indexBody_eq]
  exact hname.bind fun _ => hmethod.bind fun _ => faultless_gap0.bind fun _ =>
    faultless_indexColumns.bind fun _ => hmethod.bind fun _ => faultless_pure _

theorem faultless_indexDefinition : indexDefinition.Faultless := by
  refine faultless_firstOf (List.cons_ne_nil _ _) fun p hp => ?_
  simp only [List.mem_cons, List.not_mem_nil, or_false] at hp
  rcases hp with rfl | rfl | rfl | rfl | rfl
  · exact faultless_constraintStart.optional.bind fun _ => (faultless_keywords (by decide)).bind
      fun _ => faultless_indexBody _ _
  · exact faultless_constraintStart.optional.bind fun _ => (faultless_keyword (by decide)).bind
      fun _ => faultless_indexWord?.bind fun _ => faultless_indexBody _ _
  · exact (faultless_keyword (by decide)).bind fun _ => faultless_indexWord?.bind fun _ =>
      faultless_indexBody _ _
  · exact (faultless_keyword (by decide)).bind fun _ => faultless_indexWord?.bind fun _ =>
      faultless_indexBody _ _
  · exact faultless_indexWord.bind fun _ => faultless_indexBody _ _

theorem faultless_matchOption : matchOption.Faultless := by
  have hkind : (firstOf [keyword "full", keyword "partial", keyword "simple"]).Faultless :=
    (faultless_keyword (by decide)).orElse ((faultless_keyword (by decide)).orElse
      (faultless_keyword (by decide)))
  exact (faultless_keyword (by decide)).bind fun _ => faultless_gap1.bind fun _ =>
    hkind.bind fun _ => faultless_pure ()

theorem faultless_actionOption : actionOption.Faultless := by
  have haction : (firstOf [keyword "restrict", keyword "cascade", keywords "set null",
      keywords "set default", keywords "no action"]).Faultless := by
    refine faultless_firstOf (List.cons_ne_nil _ _) fun p hp => ?_
    simp only [List.mem_cons, List.not_mem_nil, or_false] at hp
    rcases hp with rfl | rfl | rfl | rfl | rfl
    · exact faultless_keyword (by decide)
    · exact faultless_keyword (by decide)
    · exact faultless_keywords (by decide)
    · exact faultless_keywords (by decide)
    · exact faultless_keywords (by decide)
  exact (faultless_keyword (by decide)).bind fun _ => faultless_gap1.bind fun _ =>
    ((faultless_keyword (by decide)).orElse (faultless_keyword (by decide))).bind fun _ =>
      faultless_gap1.bind fun _ => haction.bind fun _ => faultless_pure ()

theorem faultless_gap1_seq {α : Type} {p : Rule α} (h : p.Faultless) : (gap1 *> p).Faultless :=
  faultless_gap1.bind fun _ => h

/-- What follows gaps goes on for as long as there is a gap to take. -/
theorem faultless_many_gap1 {α : Type} {p : Rule α} [Tails p] (h : p.Faultless) :
    (many (gap1 *> p)).Faultless :=
  (faultless_gap1_seq h).many Exchange.takes_gap1_seq

theorem faultless_referenceDefinition : referenceDefinition.Faultless :=
  (faultless_keyword (by decide)).bind fun _ => faultless_gap1.bind fun _ =>
    faultless_identifier.bind fun _ => faultless_gap0.bind fun _ =>
      faultless_indexColumns.bind fun _ =>
        (faultless_many_gap1 (faultless_matchOption.orElse faultless_actionOption)).bind fun _ =>
          faultless_pure ()

theorem faultless_foreignKeyDefinition : foreignKeyDefinition.Faultless := by
  have hname : (optional (gap1 *> indexName)).Faultless :=
    Faultless.optional (faultless_gap1.bind fun _ => faultless_indexName)
  exact Faultless.matched (faultless_constraintStart.optional.bind fun _ =>
    (faultless_keywords (by decide)).bind fun _ => hname.bind fun _ => faultless_gap0.bind fun _ =>
      faultless_indexColumns.bind fun _ => faultless_gap1.bind fun _ =>
        faultless_referenceDefinition)

/-! ### Columns -/

theorem faultless_number : number.Faultless := by
  have hsign : (optional (oneOf "+-")).Faultless := (faultless_oneOf _).optional
  have hdigits : digits1.Faultless := faultless_span1 _
  have hfraction : (optional (char '.' *> span Char.isDigit)).Faultless :=
    Faultless.optional ((faultless_char '.').bind fun _ => faultless_span _)
  have hexponent : (optional exponent).Faultless :=
    Faultless.optional ((faultless_oneOf _).bind fun _ => hsign.bind fun _ => hdigits)
  exact Faultless.matched (hsign.bind fun _ => hdigits.bind fun _ => hfraction.bind fun _ =>
    hexponent.bind fun _ => faultless_pure ())

theorem faultless_typeArg : typeArg.Faultless :=
  faultless_number.orElse (faultless_quotedString.matched.orElse faultless_bareIdentifier)

/-- A number has a digit at least, which its sign and its fraction need not stand around. -/
theorem takes_number : Takes 1 number := by
  rw [number_eq]
  exact Takes.matched ((takes_zero (optional (oneOf "+-"))).bind fun _ =>
    (takes_span1 Char.isDigit).bind fun _ => takes_zero numberEnd)

theorem takes_typeArg : Takes 1 typeArg :=
  takes_number.orElse (starts_quotedString.takes.matched.orElse (takes_span1 _))

theorem faultless_typeQualifier : typeQualifier.Faultless :=
  (faultless_keyword (by decide)).orElse ((faultless_keyword (by decide)).orElse
    ((faultless_keyword (by decide)).orElse (faultless_keyword (by decide))))

theorem faultless_currentTime : currentTime.Faultless := by
  have hcall : emptyCall.Faultless :=
    (faultless_char '(').bind fun _ => faultless_gap0.bind fun _ =>
      (faultless_span1 Char.isDigit).optional.bind fun _ => faultless_gap0.bind fun _ =>
        (faultless_char ')').bind fun _ => faultless_pure ()
  refine Faultless.orElse ?_ ?_
  · exact (faultless_keyword (by decide)).bind fun _ =>
      (Faultless.optional (faultless_gap0.bind fun _ => hcall)).bind fun _ => faultless_pure ()
  · exact (faultless_keyword (by decide)).bind fun _ => faultless_gap0.bind fun _ => hcall

theorem faultless_bitLiteral : bitLiteral.Faultless :=
  (faultless_letters (cutsClean_of_mem List.mem_cons_self)).bind fun _ =>
    (faultless_char _).bind fun _ => (faultless_spanUpTo 64 isBit).bind fun _ =>
      (faultless_char _).bind fun _ => faultless_pure _

theorem faultless_defaultValue : defaultValue.Faultless :=
  (faultless_currentTime.map _).orElse ((faultless_quotedString.map _).orElse
    ((faultless_bitLiteral.map _).orElse ((faultless_span1 _).map _)))

theorem faultless_fieldQualifier : fieldQualifier.Faultless := by
  have hcharacterSet : characterSet.Faultless :=
    ((faultless_keywords (by decide)).orElse (faultless_keyword (by decide))).bind fun _ =>
      faultless_gap1.bind fun _ => faultless_identifier
  have hcollation : collation.Faultless :=
    (faultless_keyword (by decide)).bind fun _ => faultless_gap1.bind fun _ => faultless_identifier
  have hdefault : defaultClause.Faultless :=
    (faultless_keyword (by decide)).bind fun _ => faultless_gap1.bind fun _ =>
      faultless_defaultValue.within _
  have hcomment : commentClause.Faultless :=
    (faultless_keyword (by decide)).bind fun _ => faultless_gap1.bind fun _ =>
      faultless_quotedString.bind fun _ => faultless_pure _
  have honUpdate : onUpdateClause.Faultless :=
    (faultless_keywords (by decide)).bind fun _ => faultless_gap1.bind fun _ =>
      faultless_defaultValue
  refine faultless_firstOf (List.cons_ne_nil _ _) fun p hp => ?_
  simp only [fieldQualifiers, List.mem_cons, List.not_mem_nil, or_false] at hp
  rcases hp with rfl | rfl | rfl | rfl | rfl | rfl | rfl | rfl | rfl | rfl | rfl | rfl
  · exact (faultless_keywords (by decide)).map _
  · exact (faultless_keyword (by decide)).map _
  · exact (faultless_keywords (by decide)).map _
  · exact ((faultless_keyword (by decide)).orElse (faultless_keywords (by decide))).map _
  · exact hcharacterSet.map _
  · exact hcollation.map _
  · exact Faultless.map ((faultless_keyword (by decide)).bind fun _ => faultless_indexWord?) _
  · exact faultless_indexWord.map _
  · exact hdefault.map _
  · exact hcomment.map _
  · exact honUpdate.map _
  · exact faultless_referenceDefinition.matched.map _

theorem faultless_fieldDefinition : fieldDefinition.Faultless := by
  have hargs : (optional (gap0 *> parenthesized (commaList typeArg))).Faultless :=
    Faultless.optional (faultless_gap0.bind fun _ =>
      faultless_parenthesized (faultless_commaList faultless_typeArg takes_typeArg))
  exact faultless_identifier.bind fun _ => faultless_gap1.bind fun _ =>
    faultless_bareIdentifier.bind fun _ => hargs.bind fun _ =>
      (faultless_many_gap1 faultless_typeQualifier).bind fun _ =>
        (faultless_many_gap1 faultless_fieldQualifier).bind fun _ => faultless_pure _

/-! ### Tables -/

theorem faultless_createDefinition : createDefinition.Faultless :=
  (faultless_indexDefinition.map _).orElse ((faultless_foreignKeyDefinition.map _).orElse
    ((faultless_fieldDefinition.within _).map _))

theorem faultless_createDefinitions : createDefinitions.Faultless :=
  faultless_comma.sepBy1 faultless_createDefinition.commit Exchange.takes_comma
    Exchange.starts_createDefinition.commit.takes

theorem faultless_separatedOption : (optionSeparator *> tableOption).Faultless := by
  have hseparator : optionSeparator.Faultless :=
    faultless_gap0.bind fun _ => (faultless_char ',').optional.bind fun _ => faultless_gap0
  have hdefault : (optional (keyword "default" *> gap1)).Faultless :=
    Faultless.optional ((faultless_keyword (by decide)).bind fun _ => faultless_gap1)
  have hoption : tableOption.Faultless :=
    hdefault.bind fun _ =>
      ((faultless_keywords (by decide)).orElse faultless_bareIdentifier).bind fun _ =>
        faultless_gap0.bind fun _ => (faultless_char '=').optional.bind fun _ =>
          faultless_gap0.bind fun _ =>
            (faultless_quotedString.matched.orElse (faultless_span1 _)).bind fun _ =>
              faultless_pure _
  exact hseparator.bind fun _ => hoption

theorem faultless_tableBody : tableBody.Faultless :=
  faultless_identifier.bind fun _ => faultless_gap0.bind fun _ =>
    ((faultless_parenthesized faultless_createDefinitions).within _).bind fun _ =>
      (faultless_separatedOption.many Exchange.takes_separatedOption).bind fun _ =>
        faultless_statementEnd.bind fun _ => faultless_pure _

theorem faultless_createTable : createTable.Faultless := by
  have hstart : tableStart.Faultless :=
    (faultless_keyword (by decide)).bind fun _ =>
      (Faultless.optional (faultless_gap1.bind fun _ => faultless_keyword (by decide))).bind fun _ =>
        faultless_gap1.bind fun _ => (faultless_keyword (by decide)).bind fun _ =>
          (Faultless.optional (faultless_gap1.bind fun _ => faultless_keywords (by decide))).bind
            fun _ => faultless_gap1.bind fun _ => faultless_pure _
  exact hstart.bind fun _ => (faultless_tableBody.within _).commit.bind fun _ => faultless_pure _

/-! ### Statements -/

theorem faultless_verbatimEnd : verbatimEnd.Faultless :=
  faultless_verbatim.bind fun _ => faultless_statementEnd.bind fun _ => faultless_pure _

/-- **Every statement is read without a fault.** -/
theorem faultless_statement : statement.Faultless := by
  refine faultless_firstOf (List.cons_ne_nil _ _) fun p hp => ?_
  simp only [statements, List.mem_cons, List.not_mem_nil, or_false] at hp
  rcases hp with rfl | rfl | rfl | rfl | rfl | rfl | rfl | rfl | rfl | rfl
  · exact faultless_comment.map _
  · have hname : (identifier <* statementEnd).Faultless :=
      faultless_identifier.bind fun _ => faultless_statementEnd.bind fun _ => faultless_pure _
    exact (faultless_keyword (by decide)).bind fun _ => faultless_gap1.bind fun _ =>
      (hname.within _).bind fun _ => faultless_pure _
  · exact (faultless_keyword (by decide)).bind fun _ => faultless_verbatimEnd.bind fun _ =>
      faultless_pure _
  · exact (faultless_keywords (by decide)).bind fun _ => faultless_verbatimEnd.bind fun _ =>
      faultless_pure _
  · have hexists : (optional (gap1 *> keywords "if not exists")).Faultless :=
      Faultless.optional (faultless_gap1.bind fun _ => faultless_keywords (by decide))
    exact (faultless_keyword (by decide)).bind fun _ => faultless_gap1.bind fun _ =>
      ((faultless_keyword (by decide)).orElse (faultless_keyword (by decide))).bind fun _ =>
        hexists.bind fun _ => faultless_gap1.bind fun _ => faultless_identifier.bind fun _ =>
          faultless_verbatimEnd.bind fun _ => faultless_pure _
  · exact faultless_createTable.map _
  · exact (faultless_keywords (by decide)).bind fun _ => faultless_gap1.bind fun _ =>
      faultless_identifier.bind fun _ => faultless_verbatimEnd.bind fun _ => faultless_pure _
  · exact (faultless_keyword (by decide)).bind fun _ => faultless_verbatimEnd.bind fun _ =>
      faultless_pure _
  · exact (faultless_keyword (by decide)).bind fun _ => faultless_spaces.bind fun _ =>
      (faultless_span1 _).bind fun _ => faultless_pure _
  · exact (faultless_char ';').map _

/-! ### The rounds of repetitions -/

/-- Whatever the grammar repeats advances in every round, and so does what stands between the items
of its lists. -/
structure RoundsAdvance : Prop where
  /-- A piece of a gap. -/
  gap : (spaces <|> comment).Advances
  /-- A piece of a text that is kept as it is written. -/
  verbatimPiece : (firstOf verbatimPieces).Advances
  /-- What stands between the items of a list. -/
  comma : comma.Advances
  /-- A column of an index. -/
  indexColumn : indexColumn.Advances
  /-- An argument of a type. -/
  typeArg : typeArg.Advances
  /-- A definition of a table. -/
  definition : createDefinition.commit.Advances
  /-- An option of a foreign key. -/
  referenceOption : (gap1 *> (matchOption <|> actionOption)).Advances
  /-- A word that belongs to a type. -/
  typeQualifier : (gap1 *> typeQualifier).Advances
  /-- A qualifier of a column. -/
  fieldQualifier : (gap1 *> fieldQualifier).Advances
  /-- An option of a table. -/
  tableOption : (optionSeparator *> tableOption).Advances

theorem advances_gap1_seq {α : Type} {p : Rule α} [Tails p] (h : p.Faultless) :
    (gap1 *> p).Advances :=
  (faultless_gap1_seq h).advances Exchange.takes_gap1_seq

theorem roundsAdvance : RoundsAdvance where
  gap := (faultless_spaces.orElse faultless_comment).advances takes_gap
  verbatimPiece := faultless_verbatimPiece.advances Exchange.takes_verbatimPiece
  comma := faultless_comma.advances Exchange.takes_comma
  indexColumn := faultless_indexColumn.advances Exchange.starts_indexColumn.takes
  typeArg := faultless_typeArg.advances takes_typeArg
  definition := faultless_createDefinition.commit.advances
    Exchange.starts_createDefinition.commit.takes
  referenceOption := advances_gap1_seq (faultless_matchOption.orElse faultless_actionOption)
  typeQualifier := advances_gap1_seq faultless_typeQualifier
  fieldQualifier := advances_gap1_seq faultless_fieldQualifier
  tableOption := faultless_separatedOption.advances Exchange.takes_separatedOption

/-! ### Whole texts -/

/-- The statements of a text, each of which `e` reads: to read a statement without taking a byte
of the text is a fault. -/
def executeStatements (e : Execution Statement) (text : Text) :
    Except Fault (Except Mismatch (List Statement)) :=
  match text.trimStart with
  | [] => .ok (.ok [])
  | c :: t =>
    match e (c :: t) with
    | .ok (.ok st rest) =>
      if _ : rest.byteLength < text.byteLength then
        match executeStatements e rest with
        | .ok result => .ok (result.map (st :: ·))
        | .error fault => .error fault
      else .error .idle
    | .ok (.mismatch why) => .ok (.error why)
    | .ok (.abort why) => .ok (.error why)
    | .error fault => .error fault
termination_by text.byteLength

/-- The reading of a text.  Where it does not fit, the text is cut at the position of the failure,
and the message repeats what stands behind the cut. -/
def execute (e : Execution Statement) (text : Text) :
    Except Fault (Except Failure (List Statement)) :=
  match executeStatements e text with
  | .ok (.ok ss) => .ok (.ok ss)
  | .ok (.error why) =>
    match Execution.cutAt (text.byteLength - why.rest.byteLength) text with
    | .ok parts => .ok (.error (failureOf text ⟨parts.2, why.within⟩))
    | .error fault => .error fault
  | .error fault => .error fault

variable {e : Execution Statement} {text : Text}

/-- The reading goes on: what is left behind a statement has fewer bytes than the text. -/
theorem byteLength_lt_of_statement {st : Statement} {rest : Text}
    (h : statement text.trimStart = .ok st rest) : rest.byteLength < text.byteLength :=
  Nat.lt_of_lt_of_le
    (faultless_statement.advances closes_statement.takes _ st rest h)
    (Text.byteLength_le_of_suffix (trimStart_suffix text))

theorem executeStatements_eq (hrun : ∀ s, e s = .ok (statement s)) (text : Text) :
    executeStatements e text = .ok (readStatements text) := by
  -- statement by statement, as the reading goes
  fun_induction readStatements text with
  | case1 text htrim => rw [executeStatements, htrim]
  | case2 text c t htrim st rest hst hlt ih =>
    have hbytes := byteLength_lt_of_statement (htrim ▸ hst)
    rw [executeStatements, htrim]
    simp only [hrun, hst, hbytes, ↓reduceDIte, ih]
  | case3 text c t htrim st rest hst hnot =>
    have htakes := closes_statement.takes _ st rest hst
    rw [← htrim] at htakes
    exact absurd (Nat.lt_of_lt_of_le htakes (trimStart_suffix text).length_le) hnot
  | case4 text c t htrim why hst =>
    rw [executeStatements, htrim]
    simp only [hrun, hst]
  | case5 text c t htrim why hst =>
    rw [executeStatements, htrim]
    simp only [hrun, hst]

/-- Whatever the rule for statements leaves, or left where it gave up, is an end of the text. -/
theorem suffix_of_statement (text : Text) : (statement text.trimStart).rest <:+ text :=
  (faultless_statement.suffix _).trans (trimStart_suffix text)

/-- Where a text is refused, what was left to read there is an end of the text. -/
theorem suffix_of_readStatements {why : Mismatch} (h : readStatements text = .error why) :
    why.rest <:+ text := by
  fun_induction readStatements text with
  | case1 => cases h
  | case2 text c t htrim st rest hst hlt ih =>
    have hrest := suffix_of_statement text
    rw [htrim, hst] at hrest
    cases hnext : readStatements rest with
    | ok ss => rw [hnext] at h; cases h
    | error why' =>
      rw [hnext] at h
      cases h
      exact List.IsSuffix.trans (ih hnext) hrest
  | case3 text c t htrim st rest hst hnot =>
    cases h
    have hrest := suffix_of_statement text
    rwa [htrim, hst] at hrest
  | case4 text c t htrim why' hst =>
    cases h
    have hrest := suffix_of_statement text
    rwa [htrim, hst] at hrest
  | case5 text c t htrim why' hst =>
    cases h
    have hrest := suffix_of_statement text
    rwa [htrim, hst] at hrest

/-- The position of a failure lies between two characters. -/
theorem exists_splitAtByte?_of_readStatements {why : Mismatch}
    (h : readStatements text = .error why) :
    ∃ front, text.splitAtByte? (text.byteLength - why.rest.byteLength) =
      some (front, why.rest) := by
  obtain ⟨front, rfl⟩ := suffix_of_readStatements h
  refine ⟨front, ?_⟩
  rw [Text.byteLength_append, Nat.add_sub_cancel, Text.splitAtByte?_byteLength]

theorem execute_eq (hrun : ∀ s, e s = .ok (statement s)) (text : Text) :
    execute e text = .ok (read text) := by
  rw [execute, executeStatements_eq hrun, read]
  cases hread : readStatements text with
  | ok ss => rfl
  | error why =>
    obtain ⟨front, hsplit⟩ := exists_splitAtByte?_of_readStatements hread
    simp only [Execution.cutAt, hsplit]

/-- **Reading a schema text always goes on and never cuts a character.**  Every round of every
repetition reads a byte at least.  Where a text agrees with a keyword, or with the letter of a
number of bits, and has its bytes, they end between two characters, however many have agreed, and
there the text is cut; so it is around the closing quote of a string.  Whatever an execution of a
rule leaves, or left where it gave up, is an end of the text.  The rule for statements has an
execution, with a guard in every repetition and a cut in every rule that takes text, that ends on
every text as the rule does; so does the reading of a whole text, with a guard for each statement
and a cut at the position of a failure.  A statement takes something and leaves an end of the text,
and the position of a failure lies between two characters. -/
theorem exists_execution_read :
    RoundsAdvance ∧
    (∀ word ∈ "b" :: vocabulary, ∀ s : Text, s.agreesWith word.toList = true →
      Text.byteLength word.toList ≤ s.byteLength →
        ∃ front rest, s.splitAtByte? (Text.byteLength word.toList) = some (front, rest) ∧
          letters word.toList s = .ok front rest) ∧
    (∀ quote s, Execution.quotedBody quote s = .ok (quotedBody quote s)) ∧
    (∀ (α : Type) (p : Rule α) (d : Execution α), Executes p d → d.LeavesTails) ∧
    ∃ e : Execution Statement, Executes statement e ∧
      (∀ s, e s = .ok (statement s)) ∧
      (∀ text, execute e text = .ok (read text)) ∧
      (∀ s st rest, statement s = .ok st rest → ∃ front, front ≠ [] ∧ front ++ rest = s) ∧
      ∀ text why, readStatements text = .error why →
        ∃ front, text.splitAtByte? (text.byteLength - why.rest.byteLength) =
          some (front, why.rest) := by
  refine ⟨roundsAdvance, fun word hword s => exists_cut_of_agreesWith (cutsClean_of_mem hword),
    execution_quotedBody_eq, fun _ _ _ h => h.leavesTails, ?_⟩
  obtain ⟨e, he, hrun⟩ := faultless_statement
  refine ⟨e, he, hrun, execute_eq hrun, fun s st rest h => ?_,
    fun text why h => exists_splitAtByte?_of_readStatements h⟩
  obtain ⟨front, rfl⟩ := faultless_statement.suffix_of_ok h
  refine ⟨front, ?_, rfl⟩
  rintro rfl
  have htakes := closes_statement.takes _ st rest h
  exact absurd htakes (Nat.not_succ_le_self _)

/-- A text that is refused in front of the sign for the kelvin, behind characters of two bytes.  And
where the sign stands for the k of a keyword, the bytes of the keyword end right behind it. -/
theorem exists_execution_read_kelvin :
    (∃ front rest, Text.splitAtByte? 3 "\u212Aey".toList = some (front, rest) ∧
      letters "key".toList "\u212Aey".toList = .ok front rest) ∧
    ∃ text st rest why, statement text = .ok st rest ∧ readStatements text = .error why ∧
      why.rest = "\u212A, ü);".toList ∧ (∃ front, front ≠ [] ∧ front ++ rest = text) ∧
      ∃ front, text.splitAtByte? (text.byteLength - why.rest.byteLength) =
        some (front, why.rest) := by
  have hst : statement "USE é;\nCREATE TABLE t (é int \u212A, ü);".toList =
      .ok (.use ['é']) "\nCREATE TABLE t (é int \u212A, ü);".toList := by
    decide +kernel
  have hread : readStatements "USE é;\nCREATE TABLE t (é int \u212A, ü);".toList =
      .error ⟨"\u212A, ü);".toList, [.definitionList, .createTable]⟩ := by
    decide +kernel
  obtain ⟨-, hword, -, -, e, -, -, -, hfront, hposition⟩ := exists_execution_read
  exact ⟨hword "key" (by decide) _ (by decide) (by decide),
    _, _, _, _, hst, hread, rfl, hfront _ _ _ hst, hposition _ _ hread⟩

end Source

end SchemaDelta
