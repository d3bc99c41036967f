/-
**Columns are read back.**

A written column is read back wherever a comma or the end of the parenthesis follows.  The one
exception are defaults that run on into a call: what is read is another column then, since the time
of the change takes the place of the word.

Main definitions:

* `SchemaDelta.Field.WellFormed` — the columns that a schema which was read can have;
* `SchemaDelta.Field.Plain` — the columns that can be written without loss;
* `SchemaDelta.Lexeme.DefinitionEnds` — what follows a definition;
* `SchemaDelta.Field.RunsOn` — a default of a column runs on into a call.

Main results:

* `SchemaDelta.Source.yields_fieldDefinition` — what is read as a column is well formed;
* `SchemaDelta.Source.fieldQualifier_append`, `SchemaDelta.Source.readsBack_qualifiers` — qualifiers
  are read back;
* `SchemaDelta.Source.fieldDefinition_append` — **columns are read back**;
* `SchemaDelta.Source.fieldDefinition_of_runsOn` — unless a default runs on.
-/

import SchemaDelta.Proofs.Argument
import SchemaDelta.Proofs.Default

set_option relaxedAutoImplicit false
set_option autoImplicit false

namespace SchemaDelta

/-! ### Columns that can be read and written -/

/-- The qualifiers that a schema which was read can have. -/
def Qualifier.WellFormed : Qualifier → Prop
  | .characterSet name | .collate name => name ≠ []
  | .default value => value.WellFormed
  | _ => True

/-- Character sets and collations are written as they are, so they have to be words. -/
def Qualifier.Plain : Qualifier → Prop
  | .characterSet name | .collate name => ∀ c ∈ name, isWordChar c = true
  | _ => True

/-- The columns that a schema which was read can have. -/
structure Field.WellFormed (f : Field) : Prop where
  name_ne_nil : f.name ≠ []
  type_ne_nil : f.type ≠ []
  type_lower : ∀ c ∈ f.type, c.toNat < 128 → isWordChar c = true ∧ c.isUpper = false
  args : ∀ a ∈ f.args, Source.IsArgument a
  qualifiers : ∀ q ∈ f.qualifiers, q.WellFormed

/-- The columns that can be written without loss: the name lacks the quote that is put around it,
and the type is one of ASCII, which the change of case does not affect. -/
structure Field.Plain (f : Field) : Prop where
  name : backtick ∉ f.name
  type : ∀ c ∈ f.type, c.toNat < 128
  qualifiers : ∀ q ∈ f.qualifiers, q.Plain

/-- A default that was kept as it was written has no two dashes in it. -/
def Qualifier.LacksDashes : Qualifier → Prop
  | .default (.unclassified raw) => ¬ ['-', '-'] <:+: raw
  | _ => True

instance : DecidablePred Qualifier.Plain
  | .characterSet name | .collate name =>
    decidable_of_iff (name.all isWordChar = true) List.all_eq_true
  | .notNull | .null | .primaryKey | .autoIncrement | .uniqueKey | .key | .default _ =>
    inferInstanceAs (Decidable True)

instance : DecidablePred Qualifier.LacksDashes
  | .default (.unclassified raw) => inferInstanceAs (Decidable (¬ ['-', '-'] <:+: raw))
  | .default (.text _) | .default (.bits _) | .default .currentTimestamp =>
    inferInstanceAs (Decidable True)
  | .notNull | .null | .primaryKey | .autoIncrement | .characterSet _ | .collate _ | .uniqueKey
  | .key => inferInstanceAs (Decidable True)

instance : DecidablePred Field.Plain := fun f =>
  decidable_of_iff (backtick ∉ f.name ∧ f.type.all (fun c => decide (c.toNat < 128)) = true ∧
      ∀ q ∈ f.qualifiers, q.Plain)
    ⟨fun h => ⟨h.1, by simpa using h.2.1, h.2.2⟩,
      fun h => ⟨h.name, by simpa using h.type, h.qualifiers⟩⟩

namespace Lexeme

/-- What follows a definition: a comma, or the closing parenthesis, which may stand on a line of its
own. -/
def DefinitionEnds (s : Text) : Prop :=
  ItemEnds s ∨ ∃ t, s = '\n' :: ')' :: t

theorem DefinitionEnds.stops {s : Text} (h : DefinitionEnds s) : Stops s := by
  rcases h with h | ⟨t, rfl⟩
  · exact h.stops
  · exact ⟨'\n', ')' :: t, rfl, by decide⟩

/-- After a definition a gap ends at a comma or a parenthesis. -/
theorem DefinitionEnds.gap {s : Text} (h : DefinitionEnds s) :
    ∃ c t, gap0 s = .ok () (c :: t) ∧ (c = ',' ∨ c = ')') := by
  rcases h with h | ⟨t, rfl⟩
  · have hgap := gap0_of_solid h.solid
    obtain ⟨c, t, rfl, hc⟩ := h
    exact ⟨c, t, hgap, hc⟩
  · have hclose : Solid (')' :: t) := solid_of_head (by decide) t
    exact ⟨')', t, gap0_append (w := ['\n']) (by decide) hclose, .inr rfl⟩

theorem DefinitionEnds.noCall {s : Text} (h : DefinitionEnds s) : NoCall s := by
  obtain ⟨c, t, hgap, hc⟩ := h.gap
  refine ⟨c, t, hgap, ?_⟩
  rcases hc with rfl | rfl <;> decide

/-- A word that may follow after a gap does not follow a definition. -/
theorem DefinitionEnds.refuses {α : Type} {p : Rule α} {ws : List Text} {s : Text}
    (h : DefinitionEnds s) (hled : p.LedBy ws)
    (hws : ∀ w ∈ ws, Text.agreesWith [')'] w = false) : (gap1 *> p).Refuses s := by
  rcases h with h | ⟨t, rfl⟩
  · exact (refuses_gap1 h.solid).bind _
  · have hclose : Solid (')' :: t) := solid_of_head (by decide) t
    exact Rule.refuses_bind_of_ok (gap1_append (w := ['\n']) (by decide) (by decide) hclose)
      (hled.refuses_cons hws t)

end Lexeme

/-- The qualifiers of a column as they are written, each with a space in front. -/
def Qualifier.texts (qs : List Qualifier) : Text :=
  qs.flatMap fun q => ' ' :: Generator.mysql.qualifier q

/-- A default runs on into a call, together with the qualifiers and the text behind it. -/
def Qualifier.RunsOn (rest : Text) (q : Qualifier) (qs : List Qualifier) : Prop :=
  ∃ raw, q = .default (.unclassified raw) ∧ Source.ReadsAsTime (raw ++ (texts qs ++ rest))

/-- One of the defaults of a column runs on. -/
def Field.RunsOn (f : Field) (rest : Text) : Prop :=
  Rule.SomeMarred (Qualifier.RunsOn rest) f.qualifiers

namespace Source

open Rule Lexeme

variable {s rest : Text}

/-! ### What is read as a column -/

/-- What is read as a qualifier is well formed, if it is kept. -/
theorem yields_fieldQualifier :
    fieldQualifier.Yields fun q => ∀ m ∈ q.meaning?, m.WellFormed := by
  have hset : characterSet.Yields fun t => Text.unquote t ≠ [] :=
    yields_bind fun _ => yields_bind fun _ => yields_identifier
  have hcollation : collation.Yields fun t => Text.unquote t ≠ [] :=
    yields_bind fun _ => yields_bind fun _ => yields_identifier
  -- a qualifier of fixed words is well formed, and one that is left out is no matter
  have hfixed : ∀ {α : Type} {p : Rule α} {f : α → Qualifier},
      (∀ a, ∀ m ∈ (f a).meaning?, m.WellFormed) →
        (f <$> p).Yields fun q => ∀ m ∈ q.meaning?, m.WellFormed :=
    fun h => (yields_true _).map fun a _ => h a
  refine yields_firstOf fun p hp => ?_
  simp only [fieldQualifiers, List.mem_cons, List.not_mem_nil, or_false] at hp
  rcases hp with rfl | rfl | rfl | rfl | rfl | rfl | rfl | rfl | rfl | rfl | rfl | rfl
  · exact hfixed fun _ m hm => by cases hm; trivial
  · exact hfixed fun _ m hm => by cases hm; trivial
  · exact hfixed fun _ m hm => by cases hm; trivial
  · exact hfixed fun _ m hm => by cases hm; trivial
  · exact hset.map fun t ht m hm => by cases hm; exact ht
  · exact hcollation.map fun t ht m hm => by cases hm; exact ht
  · exact hfixed fun _ m hm => by cases hm; trivial
  · exact hfixed fun _ m hm => by cases hm; trivial
  · exact yields_defaultClause.map fun v hv m hm => by cases hm; exact hv
  · exact hfixed fun _ m hm => by cases hm
  · exact hfixed fun _ m hm => by cases hm
  · exact hfixed fun _ m hm => by cases hm

/-- **What is read as a column is well formed.** -/
theorem yields_fieldDefinition : fieldDefinition.Yields fun f => f.meaning.WellFormed := by
  refine yields_identifier.bind fun name hname => yields_bind fun _ => ?_
  refine (yields_span1 isWordChar).bind fun type htype => ?_
  have hlist : (Rule.optional (gap0 *> parenthesized (commaList typeArg))).Yields
      fun o => ∀ as ∈ o, as ≠ [] ∧ ∀ a ∈ as, IsArgument a :=
    (yields_bind fun _ => yields_bind fun _ => yields_bind fun _ =>
      (yields_sepBy1 yields_typeArg).bind fun as has => yields_bind fun _ => yields_bind fun _ =>
        yields_pure has).optional
  refine hlist.bind fun args hargs => yields_bind fun _ => ?_
  refine (yields_many (yields_bind fun _ => yields_fieldQualifier)).bind fun qs hqs => ?_
  refine yields_pure ⟨hname, ?_, ?_, ?_, ?_⟩
  · exact Text.lowercase_ne_nil htype.1
  · exact fun c hc hascii => Text.isWordChar_of_mem_lowercase htype.2 hc hascii
  · intro a ha
    obtain ⟨b, hb, rfl⟩ := List.mem_map.1 ha
    cases args with
    | none => cases hb
    | some as =>
        have harg := (hargs as rfl).2 b hb
        rw [harg.trim]
        exact harg
  · intro m hm
    obtain ⟨q, hq, hmeaning⟩ := List.mem_filterMap.1 hm
    exact hqs q hq m hmeaning

/-! ### Qualifiers are read back -/

/-- The words that each kind of qualifier starts with. -/
def qualifierWords : List (List Text) :=
  [["not".toList], ["null".toList], ["primary".toList], ["auto_increment".toList, "auto".toList],
    ["character".toList, "charset".toList], ["collate".toList], ["unique".toList],
    ["key".toList, "index".toList], ["default".toList], ["comment".toList], ["on".toList],
    ["references".toList]]

theorem ledBy_fieldQualifiers : List.Forall₂ LedBy fieldQualifiers qualifierWords := by
  refine .cons ((ledBy_keywords rfl).map _) (.cons ((ledBy_keyword _).map _) ?_)
  refine .cons ((ledBy_keywords rfl).map _) (.cons ?_ ?_)
  · exact ((ledBy_keyword "auto_increment").orElse (ledBy_keywords rfl)).map _
  refine .cons ?_ (.cons (((ledBy_keyword _).bind _).map _) ?_)
  · exact (((ledBy_keywords rfl).orElse (ledBy_keyword "charset")).bind _).map _
  refine .cons (((ledBy_keyword _).bind _).map _) (.cons ?_ ?_)
  · exact ((ledBy_keyword "key").orElse (ledBy_keyword "index")).map _
  refine .cons (((ledBy_keyword _).bind _).map _) (.cons (((ledBy_keyword _).bind _).map _) ?_)
  refine .cons (((ledBy_keywords rfl).bind _).map _) (.cons ?_ .nil)
  exact ((ledBy_keyword _).bind _).matched.map _

theorem ledBy_fieldQualifier : fieldQualifier.LedBy qualifierWords.flatten :=
  ledBy_firstOf ledBy_fieldQualifiers

theorem characterSet_append {name : Text} (hne : name ≠ [])
    (hword : ∀ c ∈ name, isWordChar c = true) (hrest : WordEnds rest) :
    characterSet ("CHARACTER SET ".toList ++ (name ++ rest)) = .ok name rest := by
  obtain ⟨c, t, rfl⟩ := List.exists_cons_of_ne_nil hne
  have hsolid : Solid (c :: t ++ rest) :=
    solid_of_head (isGapStart_of_isWordChar (hword c List.mem_cons_self)) _
  have hread := keywords_append "character set" "CHARACTER".toList "SET".toList rfl (by decide)
    (by decide) (by decide) (wordEnds_space (c :: t ++ rest))
  exact (bind_of_ok (orElse_of_ok hread _) _).trans
    ((bind_of_ok (gap1_space hsolid) _).trans (identifier_word hne hword hrest))

theorem collation_append {name : Text} (hne : name ≠ [])
    (hword : ∀ c ∈ name, isWordChar c = true) (hrest : WordEnds rest) :
    collation ("COLLATE ".toList ++ (name ++ rest)) = .ok name rest := by
  obtain ⟨c, t, rfl⟩ := List.exists_cons_of_ne_nil hne
  have hsolid : Solid (c :: t ++ rest) :=
    solid_of_head (isGapStart_of_isWordChar (hword c List.mem_cons_self)) _
  have hread := keyword_append "collate" "COLLATE".toList (by decide)
    (wordEnds_space (c :: t ++ rest))
  exact (bind_of_ok hread _).trans
    ((bind_of_ok (gap1_space hsolid) _).trans (identifier_word hne hword hrest))

/-- The word for an index is read after a word that may stand without it. -/
theorem indexWord?_append (hrest : WordEnds rest) :
    indexWord? (" KEY".toList ++ rest) = .ok (some "KEY".toList) rest := by
  have hread := keyword_append "key" "KEY".toList (by decide) hrest
  have hsolid : Solid ("KEY".toList ++ rest) := solid_of_head (c := 'K') (by decide) _
  exact optional_of_ok ((bind_of_ok (gap1_space hsolid) _).trans (orElse_of_ok hread _))

theorem defaultClause_append {v : SchemaDelta.DefaultValue} (hv : v.WellFormed)
    (hrest : Stops rest) {w : DefaultValue} {last : Text}
    (hread : defaultValue (Generator.mysql.default v ++ rest) = .ok w last) :
    defaultClause ("DEFAULT ".toList ++ (Generator.mysql.default v ++ rest)) = .ok w last := by
  have hword := keyword_append "default" "DEFAULT".toList (by decide)
    (wordEnds_space (Generator.mysql.default v ++ rest))
  exact (bind_of_ok hword _).trans
    ((bind_of_ok (gap1_space (default_solid hv hrest)) _).trans (within_eq_ok_iff.2 hread))

/-- **A qualifier is read back** in front of any stop, unless it is a default that runs on. -/
theorem fieldQualifier_append {q : SchemaDelta.Qualifier} (hq : q.WellFormed) (hplain : q.Plain)
    (hrest : Stops rest)
    (htime : ∀ raw, q = .default (.unclassified raw) → ¬ ReadsAsTime (raw ++ rest)) :
    ∃ w, fieldQualifier (Generator.mysql.qualifier q ++ rest) = .ok w rest ∧ w.meaning? = some q := by
  have hends := hrest.wordEnds
  cases q with
  | notNull =>
      have hread := keywords_append "not null" "NOT".toList "NULL".toList rfl (by decide) (by decide)
        (by decide) hends
      exact ⟨.notNull, firstOf_of_ledBy ledBy_fieldQualifiers 0 rfl "NOT NULL".toList (by decide)
        (map_eq_ok_iff.2 ⟨_, hread, rfl⟩), rfl⟩
  | null =>
      have hread := keyword_append "null" "NULL".toList (by decide) hends
      exact ⟨.null, firstOf_of_ledBy ledBy_fieldQualifiers 1 rfl "NULL".toList (by decide)
        (map_eq_ok_iff.2 ⟨_, hread, rfl⟩), rfl⟩
  | primaryKey =>
      have hread := keywords_append "primary key" "PRIMARY".toList "KEY".toList rfl (by decide)
        (by decide) (by decide) hends
      exact ⟨.primaryKey, firstOf_of_ledBy ledBy_fieldQualifiers 2 rfl "PRIMARY KEY".toList
        (by decide) (map_eq_ok_iff.2 ⟨_, hread, rfl⟩), rfl⟩
  | autoIncrement =>
      have hread := keyword_append "auto_increment" "AUTO_INCREMENT".toList (by decide) hends
      exact ⟨.autoIncrement, firstOf_of_ledBy ledBy_fieldQualifiers 3 rfl "AUTO_INCREMENT".toList
        (by decide) (map_eq_ok_iff.2 ⟨_, orElse_of_ok hread _, rfl⟩), rfl⟩
  | characterSet name =>
      have hread := characterSet_append hq hplain hends
      refine ⟨.characterSet name, firstOf_of_ledBy ledBy_fieldQualifiers 4 rfl
        "CHARACTER SET ".toList (by decide) (map_eq_ok_iff.2 ⟨_, hread, rfl⟩), ?_⟩
      rw [Qualifier.meaning?, Text.unquote_word hplain]
  | collate name =>
      have hread := collation_append hq hplain hends
      refine ⟨.collate name, firstOf_of_ledBy ledBy_fieldQualifiers 5 rfl "COLLATE ".toList
        (by decide) (map_eq_ok_iff.2 ⟨_, hread, rfl⟩), ?_⟩
      rw [Qualifier.meaning?, Text.unquote_word hplain]
  | uniqueKey =>
      have hword := keyword_append "unique" "UNIQUE".toList (by decide)
        (wordEnds_space ("KEY".toList ++ rest))
      have hread := (bind_of_ok hword fun _ => indexWord?).trans (indexWord?_append hends)
      exact ⟨.uniqueKey, firstOf_of_ledBy ledBy_fieldQualifiers 6 rfl "UNIQUE KEY".toList
        (by decide) (map_eq_ok_iff.2 ⟨_, hread, rfl⟩), rfl⟩
  | key =>
      have hread := keyword_append "key" "KEY".toList (by decide) hends
      exact ⟨.key, firstOf_of_ledBy ledBy_fieldQualifiers 7 rfl "KEY".toList
        (by decide) (map_eq_ok_iff.2 ⟨_, orElse_of_ok hread _, rfl⟩), rfl⟩
  | default value =>
      have hrun : ∀ raw, value = .unclassified raw → ¬ ReadsAsTime (raw ++ rest) :=
        fun raw h => htime raw (congrArg _ h)
      obtain ⟨w, hread, hmeaning⟩ := defaultValue_append hq hrest hrun
      have hclause := defaultClause_append hq hrest hread
      refine ⟨.default w, firstOf_of_ledBy ledBy_fieldQualifiers 8 rfl "DEFAULT ".toList
        (by decide) (map_eq_ok_iff.2 ⟨_, hclause, rfl⟩), ?_⟩
      rw [Qualifier.meaning?, hmeaning]

/-! ### The qualifiers of a column -/

section Texts

variable {q : SchemaDelta.Qualifier} {qs : List SchemaDelta.Qualifier}

theorem texts_cons (q : SchemaDelta.Qualifier) (qs : List SchemaDelta.Qualifier) (rest : Text) :
    Qualifier.texts (q :: qs) ++ rest =
      ' ' :: (Generator.mysql.qualifier q ++ (Qualifier.texts qs ++ rest)) := by
  simp [Qualifier.texts]

/-- Every qualifier is written with a letter in front. -/
theorem exists_qualifier_eq_cons (q : SchemaDelta.Qualifier) :
    ∃ c t, Generator.mysql.qualifier q = c :: t ∧ isWordChar c = true := by
  cases q <;> exact ⟨_, _, rfl, by decide⟩

theorem solid_qualifier (q : SchemaDelta.Qualifier) (rest : Text) :
    Solid (Generator.mysql.qualifier q ++ rest) := by
  obtain ⟨c, t, hq, hword⟩ := exists_qualifier_eq_cons q
  rw [hq]
  exact solid_of_head (isGapStart_of_isWordChar hword) (t ++ rest)

theorem stops_texts (hrest : DefinitionEnds rest) (qs : List SchemaDelta.Qualifier) :
    Stops (Qualifier.texts qs ++ rest) := by
  cases qs with
  | nil => exact hrest.stops
  | cons q qs =>
      rw [texts_cons]
      exact ⟨' ', _, rfl, by decide⟩

theorem noCall_texts (hrest : DefinitionEnds rest) (qs : List SchemaDelta.Qualifier) :
    NoCall (Qualifier.texts qs ++ rest) := by
  cases qs with
  | nil => exact hrest.noCall
  | cons q qs =>
      obtain ⟨c, t, hq, hword⟩ := exists_qualifier_eq_cons q
      have hsolid := solid_qualifier q (Qualifier.texts qs ++ rest)
      rw [texts_cons]
      rw [hq] at hsolid ⊢
      refine ⟨c, _, gap0_append (w := [' ']) (by decide) hsolid, ?_⟩
      rintro rfl
      exact absurd hword (by decide)

theorem ledBy_typeQualifier :
    typeQualifier.LedBy ["unsigned".toList, "signed".toList, "zerofill".toList, "binary".toList] :=
  ledBy_firstOf (.cons (ledBy_keyword _) (.cons (ledBy_keyword _) (.cons (ledBy_keyword _)
    (.cons (ledBy_keyword _) .nil))))

/-- No qualifier is taken for a word that belongs to the type. -/
theorem refuses_typeQualifier (hrest : DefinitionEnds rest) (qs : List SchemaDelta.Qualifier) :
    (gap1 *> typeQualifier).Refuses (Qualifier.texts qs ++ rest) := by
  cases qs with
  | nil => exact hrest.refuses ledBy_typeQualifier (by decide)
  | cons q qs =>
      rw [texts_cons]
      refine refuses_bind_of_ok (gap1_space (solid_qualifier q _)) ?_
      cases q with
      | notNull => exact ledBy_typeQualifier.refuses "NOT NULL".toList (by decide) _
      | null => exact ledBy_typeQualifier.refuses "NULL".toList (by decide) _
      | primaryKey => exact ledBy_typeQualifier.refuses "PRIMARY KEY".toList (by decide) _
      | autoIncrement => exact ledBy_typeQualifier.refuses "AUTO_INCREMENT".toList (by decide) _
      | characterSet name =>
          exact ledBy_typeQualifier.refuses_cons (c := 'C') (by decide) _
      | collate name => exact ledBy_typeQualifier.refuses_cons (c := 'C') (by decide) _
      | uniqueKey => exact ledBy_typeQualifier.refuses "UNIQUE KEY".toList (by decide) _
      | key => exact ledBy_typeQualifier.refuses "KEY".toList (by decide) _
      | default value => exact ledBy_typeQualifier.refuses_cons (c := 'D') (by decide) _

theorem gap1_qualifier_append {w : Qualifier} {last : Text}
    (h : fieldQualifier (Generator.mysql.qualifier q ++ rest) = .ok w last) :
    (gap1 *> fieldQualifier) (' ' :: (Generator.mysql.qualifier q ++ rest)) = .ok w last :=
  (bind_of_ok (gap1_space (solid_qualifier q rest)) _).trans h

theorem length_lt_qualifier (q : SchemaDelta.Qualifier) (rest : Text) :
    rest.length < (' ' :: (Generator.mysql.qualifier q ++ rest)).length := by
  simp only [List.length_cons, List.length_append]
  omega

/-- **The qualifiers of a column are read back** from their text, except for defaults that run on. -/
theorem readsBack_qualifiers (hrest : DefinitionEnds rest) :
    ReadsBack (gap1 *> fieldQualifier) Qualifier.meaning? (fun qs => Qualifier.texts qs ++ rest)
      (fun q => q.WellFormed ∧ q.Plain) (Qualifier.RunsOn rest) where
  refuses_nil := hrest.refuses ledBy_fieldQualifier (by decide)
  read q qs hq hnot := by
    have htime : ∀ raw, q = .default (.unclassified raw) →
        ¬ ReadsAsTime (raw ++ (Qualifier.texts qs ++ rest)) :=
      fun raw heq hreads => hnot ⟨raw, heq, hreads⟩
    obtain ⟨w, hw, hmeaning⟩ := fieldQualifier_append hq.1 hq.2 (stops_texts hrest qs) htime
    rw [texts_cons]
    exact ⟨w, gap1_qualifier_append hw, hmeaning⟩
  length_lt q qs := by
    rw [texts_cons]
    exact length_lt_qualifier q _

/-- The time of the change takes the place of a word that runs on. -/
theorem misreads_qualifiers (hrest : DefinitionEnds rest) :
    Misreads (gap1 *> fieldQualifier) Qualifier.meaning? some
      (fun qs => Qualifier.texts qs ++ rest) (fun q => q.WellFormed ∧ q.Plain)
      (Qualifier.RunsOn rest) := by
  rintro q qs hq ⟨raw, rfl, hreads⟩
  obtain ⟨after, hdefault⟩ := defaultValue_of_readsAsTime hreads
  have hclause := defaultClause_append (v := .unclassified raw) hq.1 (stops_texts hrest qs) hdefault
  have hown := gap1_qualifier_append (q := .default (.unclassified raw))
    (firstOf_of_ledBy ledBy_fieldQualifiers 8 rfl "DEFAULT ".toList (by decide)
      (map_eq_ok_iff.2 ⟨_, hclause, rfl⟩))
  refine ⟨_, rfl, fun w last hread => ?_⟩
  have hread := hown.symm.trans ((congrArg _ (texts_cons _ qs rest)).symm.trans hread)
  cases hread
  exact ⟨.default .currentTimestamp, rfl, nofun⟩

end Texts

/-! ### Columns are read back -/

variable {f : SchemaDelta.Field}

theorem field_append (f : SchemaDelta.Field) (rest : Text) : Generator.mysql.field f ++ rest =
    Text.quotedWith backtick f.name ++ (' ' :: (Text.uppercase f.type ++
      (Generator.typeArgs f.args ++ (Qualifier.texts f.qualifiers ++ rest)))) := by
  simp [Generator.field, Generator.mysql, Qualifier.texts]

/-- A type of ASCII is written as a word. -/
theorem isWordChar_uppercase (hf : f.WellFormed) (hplain : f.Plain) :
    ∀ c ∈ Text.uppercase f.type, isWordChar c = true := by
  rw [Text.uppercase_ascii hplain.type]
  intro c hc
  obtain ⟨d, hd, rfl⟩ := List.mem_map.1 hc
  have hascii := hplain.type d hd
  exact isWordChar_toUpper hascii (hf.type_lower d hd hascii).1

/-- The name, the type and its arguments are read, and the qualifiers are left.  The type goes into
upper case and back again. -/
theorem fieldDefinition_qualifiers (hf : f.WellFormed) (hname : backtick ∉ f.name)
    (hword : ∀ c ∈ Text.uppercase f.type, isWordChar c = true) (hrest : DefinitionEnds rest) :
    ∃ g : Field, (∀ qs, { g with qualifiers := qs }.meaning =
        { f with type := Text.lowercase (Text.uppercase f.type)
                 qualifiers := qs.filterMap Qualifier.meaning? }) ∧
      fieldDefinition (Generator.mysql.field f ++ rest) =
        (Rule.many (gap1 *> fieldQualifier) >>= fun qs => pure { g with qualifiers := qs })
          (Qualifier.texts f.qualifiers ++ rest) := by
  have htype : Text.uppercase f.type ≠ [] := Text.uppercase_ne_nil hf.type_ne_nil
  obtain ⟨o, hargs, hvalue⟩ := typeArgs_append hf.args (noCall_texts hrest f.qualifiers)
  have hsolid : Solid (Text.uppercase f.type ++
      (Generator.typeArgs f.args ++ (Qualifier.texts f.qualifiers ++ rest))) := by
    obtain ⟨c, t, hct⟩ := List.exists_cons_of_ne_nil htype
    rw [hct]
    exact solid_of_head (isGapStart_of_isWordChar (hword c (by simp [hct]))) _
  have hends : WordEnds (Generator.typeArgs f.args ++ (Qualifier.texts f.qualifiers ++ rest)) := by
    cases f.args with
    | nil => exact (stops_texts hrest f.qualifiers).wordEnds
    | cons a as => exact wordEnds_cons (by decide) _
  refine ⟨{ name := Text.quotedWith backtick f.name, type := Text.uppercase f.type,
            args := o.getD [], typeQualifiers := [], qualifiers := [] }, ?_, ?_⟩
  · intro qs
    have htrim : f.args.map Text.trim = f.args := by
      calc f.args.map Text.trim = f.args.map id :=
            List.map_congr_left fun a ha => (hf.args a ha).trim
        _ = f.args := List.map_id _
    rw [Field.meaning, Text.unquote_quotedWith hf.name_ne_nil hname, hvalue, htrim]
  · have hbare : bareIdentifier (Text.uppercase f.type ++
        (Generator.typeArgs f.args ++ (Qualifier.texts f.qualifiers ++ rest))) = .ok _ _ :=
      span1_append htype hword hends
    rw [field_append, fieldDefinition, bind_of_ok (identifier_quotedWith hf.name_ne_nil hname _),
      bind_of_ok (gap1_space hsolid), bind_of_ok hbare]
    rw [typeArgList] at hargs
    rw [bind_of_ok hargs, bind_of_ok (refuses_typeQualifier hrest f.qualifiers).many]

/-- Columns are read back if their type is, unless a default runs on. -/
theorem fieldDefinition_of_lowercase (hf : f.WellFormed) (hname : backtick ∉ f.name)
    (hword : ∀ c ∈ Text.uppercase f.type, isWordChar c = true)
    (hlower : Text.lowercase (Text.uppercase f.type) = f.type)
    (hplain : ∀ q ∈ f.qualifiers, q.Plain) (hrest : DefinitionEnds rest)
    (hnot : ¬ f.RunsOn rest) :
    ∃ g, fieldDefinition (Generator.mysql.field f ++ rest) = .ok g rest ∧ g.meaning = f := by
  obtain ⟨g, hmeaning, hread⟩ := fieldDefinition_qualifiers hf hname hword hrest
  obtain ⟨qs, hqs, hvalue⟩ := (readsBack_qualifiers hrest).many
    (fun q hq => ⟨hf.qualifiers q hq, hplain q hq⟩) hnot
  refine ⟨{ g with qualifiers := qs }, hread.trans (bind_of_ok hqs _), ?_⟩
  rw [hmeaning, hlower, hvalue]

/-- **Columns are read back**, unless a default runs on. -/
theorem fieldDefinition_append (hf : f.WellFormed) (hplain : f.Plain) (hrest : DefinitionEnds rest)
    (hnot : ¬ f.RunsOn rest) :
    ∃ g, fieldDefinition (Generator.mysql.field f ++ rest) = .ok g rest ∧ g.meaning = f := by
  have hlower : Text.lowercase (Text.uppercase f.type) = f.type :=
    Text.lowercase_uppercase hplain.type fun c hc => (hf.type_lower c hc (hplain.type c hc)).2
  exact fieldDefinition_of_lowercase hf hplain.name (isWordChar_uppercase hf hplain) hlower
    hplain.qualifiers hrest hnot

/-- **If a default runs on**, another column is read, or none. -/
theorem fieldDefinition_of_runsOn (hf : f.WellFormed) (hplain : f.Plain)
    (hrest : DefinitionEnds rest) (hruns : f.RunsOn rest) {g : Field} {last : Text}
    (h : fieldDefinition (Generator.mysql.field f ++ rest) = .ok g last) : g.meaning ≠ f := by
  obtain ⟨g', -, hread⟩ :=
    fieldDefinition_qualifiers hf hplain.name (isWordChar_uppercase hf hplain) hrest
  rw [hread] at h
  obtain ⟨qs, mid, hqs, hpure⟩ := bind_eq_ok_iff.1 h
  cases hpure
  have hne := (readsBack_qualifiers hrest).many_of_marred (misreads_qualifiers hrest)
    (fun q hq => ⟨hf.qualifiers q hq, hplain.qualifiers q hq⟩) hruns hqs
  rw [List.filterMap_some] at hne
  intro hmeaning
  refine hne (Eq.trans ?_ (congrArg SchemaDelta.Field.qualifiers hmeaning))
  exact List.filterMap_congr fun q _ => Option.bind_fun_some _

/-- Defaults without two dashes do not run on. -/
theorem not_runsOn_of_lacksDashes (hf : f.WellFormed)
    (hdashes : ∀ q ∈ f.qualifiers, q.LacksDashes) (hrest : DefinitionEnds rest) :
    ¬ f.RunsOn rest := by
  rintro ⟨front, q, back, hqualifiers, raw, rfl, hreads⟩
  have hmem : .default (.unclassified raw) ∈ f.qualifiers := by simp [hqualifiers]
  have htoken : IsToken raw := hf.qualifiers _ hmem
  obtain ⟨before, after, -, -, hraw, -⟩ := (readsAsTime_iff htoken
    ((stops_texts hrest back).head (by decide)) (noCall_texts hrest back)).1 hreads
  exact hdashes _ hmem ⟨before, after, by simp [hraw]⟩

end Source

end SchemaDelta
