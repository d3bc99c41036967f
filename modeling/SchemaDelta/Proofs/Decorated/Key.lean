/-
**Foreign keys, read side by side with an aligned text.**

A foreign key is recognised and left out, wherever it stands and whatever its options are.  Its
words are shared with other parts of a table: `CONSTRAINT` may start an index as well, and `ON` may
start a qualifier of a column.

Main definitions:

* `SchemaDelta.Decorated.IsName` — a name, quoted or bare;
* `SchemaDelta.Decorated.Reference` — the table and the columns that are referred to, with options;
* `SchemaDelta.Decorated.ForeignKey` — a foreign key as it is written.

Main results:

* `SchemaDelta.Decorated.tracks_parenthesizedList` — lists in parentheses are tracked, with any white
  space in them;
* `SchemaDelta.Decorated.tracks_referenceDefinition`,
  `SchemaDelta.Decorated.tracks_foreignKeyDefinition` — so are references and **foreign keys**;
* `SchemaDelta.Decorated.shuns_indexDefinition_foreignKey` — a foreign key is not taken for an index.
-/

import SchemaDelta.Proofs.Alignment
import SchemaDelta.Proofs.Key
import SchemaDelta.Proofs.Exchange.Key

set_option relaxedAutoImplicit false
set_option autoImplicit false

namespace SchemaDelta.Decorated

open Rule Lexeme Source Exchange SchemaDelta.Alignment

/-! ### What is written -/

/-- A name as it may be written: between backticks, or a word. -/
inductive IsName : Text → Prop where
  | quoted {name : Text} (hne : name ≠ []) (hlacks : backtick ∉ name) :
      IsName (Text.quotedWith backtick name)
  | bare {word : Text} (hne : word ≠ []) (hword : ∀ c ∈ word, isWordChar c = true) : IsName word

/-- The columns of an index or of a foreign key, in parentheses. -/
def columnList (columns : List Text) : Text :=
  '(' :: (Text.joinWith ", ".toList columns ++ [')'])

/-- What is done where a row that is referred to is deleted or updated. -/
inductive ReferenceAction where
  | restrict
  | cascade
  | setNull
  | setDefault
  | noAction

def ReferenceAction.text : ReferenceAction → Text
  | .restrict => "RESTRICT".toList
  | .cascade => "CASCADE".toList
  | .setNull => "SET NULL".toList
  | .setDefault => "SET DEFAULT".toList
  | .noAction => "NO ACTION".toList

/-- An option of a foreign key. -/
inductive ReferenceOption where
  | matchFull
  | matchPartial
  | matchSimple
  | onDelete (action : ReferenceAction)
  | onUpdate (action : ReferenceAction)

def ReferenceOption.text : ReferenceOption → Text
  | .matchFull => "MATCH FULL".toList
  | .matchPartial => "MATCH PARTIAL".toList
  | .matchSimple => "MATCH SIMPLE".toList
  | .onDelete action => "ON DELETE ".toList ++ action.text
  | .onUpdate action => "ON UPDATE ".toList ++ action.text

/-- The table and the columns that are referred to. -/
structure Reference where
  table : Text
  columns : List Text
  options : List ReferenceOption
  table_isName : IsName table
  columns_ne_nil : columns ≠ []
  columns_isName : ∀ c ∈ columns, IsName c

/-- The options of a reference, each with a space in front. -/
def Reference.optionTexts (options : List ReferenceOption) : Text :=
  options.flatMap fun o => ' ' :: o.text

def Reference.text (r : Reference) : Text :=
  "REFERENCES ".toList ++ (r.table ++ (' ' :: (columnList r.columns ++ optionTexts r.options)))

/-- A foreign key: the word `CONSTRAINT` may stand in front, with or without a symbol, and the key
may have a name. -/
structure ForeignKey where
  constraint : Option (Option Text)
  name : Option Text
  columns : List Text
  reference : Reference
  symbol_quotable : ∀ symbol ∈ constraint, ∀ n ∈ symbol, n ≠ [] ∧ backtick ∉ n
  name_quotable : ∀ n ∈ name, n ≠ [] ∧ backtick ∉ n
  columns_ne_nil : columns ≠ []
  columns_isName : ∀ c ∈ columns, IsName c

/-- The word `CONSTRAINT`, if it stands there, up to the next word. -/
def constraintText : Option (Option Text) → Text
  | none => []
  | some none => "CONSTRAINT".toList ++ [' ']
  | some (some n) => "CONSTRAINT".toList ++ ((' ' :: Text.quotedWith backtick n) ++ [' '])

def ForeignKey.text (k : ForeignKey) : Text :=
  constraintText k.constraint ++ ("FOREIGN KEY".toList ++
    (Generator.mysql.spacedName k.name ++
      ([' '] ++ (columnList k.columns ++ ([' '] ++ k.reference.text)))))

variable {R : Text → Text → Prop} (hR : Alignment R) {s t : Text}

include hR

/-! ### Columns -/

theorem tracks_isName (h : IsName t) (hs : WordEnds s) : Tracks R identifier t s (· = t) := by
  cases h with
  | quoted hne hlacks => exact tracks_name hR hne hlacks s
  | bare hne hword => exact tracks_bareName hR hne hword hs

theorem settles_isName (h : IsName t) (s : Text) : Settles R (t ++ s) := by
  cases h with
  | quoted => exact settles_quotedWith hR _ s
  | bare hne hword => exact settles_word hR hne hword s

/-- What follows the name of a column is no length of it, and no direction. -/
theorem tracks_indexColumn (h : IsName t) (hs : ItemEnds s) :
    Tracks R indexColumn t s (· = t) := by
  have hlength : Shuns R (gap0 *> parenthesized digits1) s := by
    intro u hu
    obtain ⟨c, v, hgap, hc⟩ := (itemEnds hR hs hu).noCall
    exact refuses_bind_of_ok hgap ((refuses_char hc).bind _)
  have hdirection : Shuns R (gap1 *> (keyword "asc" <|> keyword "desc")) s :=
    fun u hu => (refuses_gap1 (itemEnds hR hs hu).solid).bind _
  refine (tracks_isName hR h hs.stops.wordEnds).bind_nil fun name hname => ?_
  exact hlength.optional.nil_bind fun _ _ => hdirection.optional.nil_bind fun _ _ =>
    tracks_pure hname

theorem settles_itemEnds (hs : ItemEnds s) : Settles R s := by
  obtain ⟨c, t, rfl, hc⟩ := hs
  rcases hc with rfl | rfl <;> exact settles_cons hR (by decide) t

/-- **A list of items in parentheses is tracked**, with white space inside of the parentheses and
around the commas. -/
theorem tracks_parenthesizedList {α β : Type} {item : Rule α} [Tails item] (text : β → Text)
    {Q : β → α → Prop} {inner before behind close : Text} (hinner : inner.all isSpace = true)
    (hbefore : before.all isSpace = true) (hbehind : behind.all isSpace = true)
    (hclose : close.all isSpace = true) {bs : List β} (hne : bs ≠ [])
    (hitem : ∀ b ∈ bs, ∀ t, Tracks R item (text b) (before ++ ',' :: t) (Q b))
    (hlast : ∀ b ∈ bs, ∀ t, Tracks R item (text b) (close ++ ')' :: t) (Q b))
    (hsettles : ∀ b ∈ bs, ∀ s, Settles R (text b ++ s)) (s : Text) :
    Tracks R (parenthesized (commaList item)) ('(' :: (inner ++
      (Text.joinWith (before ++ ',' :: behind) (bs.map text) ++ (close ++ [')'])))) s
      fun as => List.Forall₂ Q bs as := by
  obtain ⟨b, bs, rfl⟩ := List.exists_cons_of_ne_nil hne
  have hstop : Shuns R (comma *> item) (close ++ ')' :: s) :=
    shuns_comma hR hclose (by decide) (by decide) s _
  have hlist : Tracks R (commaList item)
      (text b ++ bs.flatMap fun d => (before ++ ',' :: behind) ++ text d) (close ++ ')' :: s)
      fun as => List.Forall₂ Q (b :: bs) as := by
    refine tracks_sepBy1 text (fun _ => before ++ ',' :: behind) takes_comma_seq hstop b bs
      (fun front c back heq => ?_) fun front c back heq => ?_
    · have hc : c ∈ b :: bs := List.mem_cons_of_mem b (by simp [heq])
      exact tracks_commaBetween hR hbefore hbehind (hsettles c hc _)
    · have hc : c ∈ b :: bs := by simp [heq]
      cases back with
      | nil => exact hlast c hc s
      | cons d back => simpa using hitem c hc _
  have hjoin : Text.joinWith (before ++ ',' :: behind) ((b :: bs).map text) =
      text b ++ bs.flatMap fun d => (before ++ ',' :: behind) ++ text d := by
    rw [List.map_cons, Text.joinWith_cons, List.flatMap_map]
  rw [hjoin]
  refine tracks_parenthesized hR hinner hclose ?_ hlist
  rw [List.append_assoc]
  exact hsettles b List.mem_cons_self _

/-- So is one with a comma and a space between its items. -/
theorem tracks_commaList {item : Rule Text} [Tails item] {ts : List Text} (hne : ts ≠ [])
    (hitem : ∀ t ∈ ts, ∀ s, ItemEnds s → Tracks R item t s (· = t))
    (hsettles : ∀ t ∈ ts, ∀ s, Settles R (t ++ s)) (s : Text) :
    Tracks R (parenthesized (commaList item)) (columnList ts) s (· = ts) := by
  have hnil : ([] : Text).all isSpace = true := rfl
  have hspace : [' '].all isSpace = true := by decide
  have hlist := tracks_parenthesizedList hR id hnil hnil hspace hnil hne
    (fun t ht u => hitem t ht _ ⟨',', u, rfl, .inl rfl⟩)
    (fun t ht u => hitem t ht _ ⟨')', u, rfl, .inr rfl⟩) hsettles s
  rw [List.map_id] at hlist
  refine hlist.mono fun as has => ?_
  have heq : List.Forall₂ (fun a t => a = t) as ts := has.flip
  exact List.forall₂_eq_eq_eq ▸ heq

theorem tracks_indexColumns {columns : List Text} (hne : columns ≠ [])
    (hcolumns : ∀ c ∈ columns, IsName c) (s : Text) :
    Tracks R indexColumns (columnList columns) s (· = columns) :=
  tracks_commaList hR hne (fun c hc _ => tracks_indexColumn hR (hcolumns c hc))
    (fun c hc => settles_isName hR (hcolumns c hc)) s

/-! ### References -/

theorem tracks_referenceAction (a : ReferenceAction) (hs : WordEnds s) :
    Tracks R (firstOf referenceActions) a.text s fun _ => True := by
  have hled := ledBy_referenceActions
  cases a with
  | restrict =>
      have hread := tracks_firstOf_keyword hR hled 0 "restrict" rfl "RESTRICT".toList (by decide)
        (by decide) hs
      exact hread.mono fun _ _ => trivial
  | cascade =>
      have hread := tracks_firstOf_keyword hR hled 1 "cascade" rfl "CASCADE".toList (by decide)
        (by decide) hs
      exact hread.mono fun _ _ => trivial
  | setNull =>
      have hread := tracks_keywords hR "set null" _ ["SET".toList, "NULL".toList] _ rfl rfl
        (by decide) hs
      exact tracks_firstOf hR hled 2 rfl "SET".toList (by decide) (by decide)
        ⟨" NULL".toList, rfl⟩ hread
  | setDefault =>
      have hread := tracks_keywords hR "set default" _ ["SET".toList, "DEFAULT".toList] _ rfl rfl
        (by decide) hs
      -- the phrase before it starts with the same word, and its second word is another one
      have hnull : Shuns R (keywords "set null") ("SET".toList ++ ' ' :: ("DEFAULT".toList ++ s)) := by
        have hset := tracks_keyword hR "set" "SET".toList (by decide) (by decide)
          (wordEnds_space ("DEFAULT".toList ++ s))
        have hword := shuns_of_ledBy hR (ledBy_keyword "null") "DEFAULT".toList (by decide)
          (by decide) s
        exact fun u hu => (hset.shuns_bind (k := fun _ => gap1 *> Functor.discard (keyword "null"))
          (fun _ _ => shuns_spaced hR (settles_cons hR (by decide) _)
            fun u hu => (hword u hu).discard) u hu).matched
      refine tracks_firstOf_of_shuns [_, _, _] _ (fun r hr => ?_) hread
      simp only [List.mem_cons, List.not_mem_nil, or_false] at hr
      rcases hr with rfl | rfl | rfl
      · exact shuns_of_ledBy hR (ledBy_keyword _) "SET".toList (by decide) (by decide) _
      · exact shuns_of_ledBy hR (ledBy_keyword _) "SET".toList (by decide) (by decide) _
      · exact hnull
  | noAction =>
      have hread := tracks_keywords hR "no action" _ ["NO".toList, "ACTION".toList] _ rfl rfl
        (by decide) hs
      exact tracks_firstOf hR hled 4 rfl "NO".toList (by decide) (by decide)
        ⟨" ACTION".toList, rfl⟩ hread

theorem ReferenceAction.settles (a : ReferenceAction) (s : Text) : Settles R (a.text ++ s) := by
  cases a <;> exact settles_cons hR (by decide) _

/-- What is said about the way to match is tracked. -/
theorem tracks_matchOption (i : Nat) (word : String)
    (hi : [keyword "full", keyword "partial", keyword "simple"][i]? = some (keyword word))
    (kind : Text) (hkind : IsPhraseWord kind word.toList)
    (hlead : ∀ ws ∈ [["full".toList], ["partial".toList], ["simple".toList]].take i, ∀ w ∈ ws,
      kind.agreesWith w = false) (hs : WordEnds s) :
    Tracks R matchOption ("MATCH".toList ++ ' ' :: kind) s fun _ => True := by
  have hword := tracks_keyword hR "match" "MATCH".toList (by decide) (by decide)
    (wordEnds_space (kind ++ s))
  have hkinds : List.Forall₂ LedBy [keyword "full", keyword "partial", keyword "simple"]
      [["full".toList], ["partial".toList], ["simple".toList]] :=
    .cons (ledBy_keyword _) (.cons (ledBy_keyword _) (.cons (ledBy_keyword _) .nil))
  have hread := tracks_firstOf_keyword hR hkinds i word hi kind hkind hlead hs
  refine Tracks.bind hword fun _ _ => ?_
  exact tracks_spaced hR (hkind.settles hR s) (hread.map fun _ _ => trivial)

/-- So is what is done where a row changes, behind the word for the change. -/
theorem tracks_actionOption (change : Text) (a : ReferenceAction)
    (hchange : Tracks R (keyword "delete" <|> keyword "update") change (' ' :: (a.text ++ s))
      fun _ => True)
    (hsettles : Settles R (change ++ ' ' :: a.text ++ s)) (hs : WordEnds s) :
    Tracks R actionOption ("ON".toList ++ ' ' :: (change ++ ' ' :: a.text)) s fun _ => True := by
  have hword := tracks_keyword hR "on" "ON".toList (by decide) (by decide)
    (wordEnds_space (change ++ ' ' :: a.text ++ s))
  refine Tracks.bind hword fun _ _ => ?_
  refine tracks_spaced hR hsettles (Tracks.bind hchange fun _ _ => ?_)
  exact tracks_spaced hR (a.settles hR s) ((tracks_referenceAction hR a hs).map fun _ _ => trivial)

theorem tracks_referenceOption (o : ReferenceOption) (hs : WordEnds s) :
    Tracks R referenceOption o.text s fun _ => True := by
  have hmatch : ∀ t, Shuns R matchOption ("ON".toList ++ t) :=
    shuns_of_ledBy hR ((ledBy_keyword "match").bind _) "ON".toList (by decide) (by decide)
  cases o with
  | matchFull =>
      have hread := tracks_matchOption hR 0 "full" rfl "FULL".toList (by decide) (by decide) hs
      exact hread.orElse actionOption
  | matchPartial =>
      have hread := tracks_matchOption hR 1 "partial" rfl "PARTIAL".toList (by decide) (by decide)
        hs
      exact hread.orElse actionOption
  | matchSimple =>
      have hread := tracks_matchOption hR 2 "simple" rfl "SIMPLE".toList (by decide) (by decide) hs
      exact hread.orElse actionOption
  | onDelete a =>
      have hdelete := tracks_keyword hR "delete" "DELETE".toList (by decide) (by decide)
        (wordEnds_space (a.text ++ s))
      have hread := tracks_actionOption hR "DELETE".toList a
        ((hdelete.mono fun _ _ => trivial).orElse _) (settles_cons hR (by decide) _) hs
      exact Shuns.orElse_tracks (hmatch _) hread
  | onUpdate a =>
      have hupdate := tracks_keyword hR "update" "UPDATE".toList (by decide) (by decide)
        (wordEnds_space (a.text ++ s))
      have hdelete := shuns_of_ledBy hR (ledBy_keyword "delete") "UPDATE".toList (by decide)
        (by decide) (' ' :: (a.text ++ s))
      have hread := tracks_actionOption hR "UPDATE".toList a
        (hdelete.orElse_tracks (hupdate.mono fun _ _ => trivial)) (settles_cons hR (by decide) _) hs
      exact Shuns.orElse_tracks (hmatch _) hread

omit hR in
theorem wordEnds_optionTexts (options : List ReferenceOption) (hs : WordEnds s) :
    WordEnds (Reference.optionTexts options ++ s) := by
  cases options with
  | nil => exact hs
  | cons o options => exact wordEnds_space _

theorem settles_columnList (columns : List Text) (s : Text) :
    Settles R (columnList columns ++ s) :=
  settles_cons hR (by decide) _

/-- **A reference is tracked** with all of its options. -/
theorem tracks_referenceDefinition (r : Reference) (hs : WordEnds s)
    (hstop : Shuns R (gap1 *> referenceOption) s) :
    Tracks R referenceDefinition r.text s fun _ => True := by
  have hword := tracks_keyword hR "references" "REFERENCES".toList (by decide) (by decide)
    (wordEnds_space (r.table ++ (' ' :: (columnList r.columns ++
      Reference.optionTexts r.options)) ++ s))
  have hoptions : Tracks R referenceOptions (Reference.optionTexts r.options) s
      fun as => List.Forall₂ (fun _ _ => True) r.options as := by
    refine tracks_many _ takes_gap1_seq hstop _ fun front o back _ => ?_
    have ho : Settles R (o.text ++ (Reference.optionTexts back ++ s)) := by
      cases o <;> exact settles_cons hR (by decide) _
    exact tracks_spaced hR ho (tracks_referenceOption hR o (wordEnds_optionTexts back hs))
  have hshape : r.text = "REFERENCES".toList ++ ([' '] ++ (r.table ++ ([' '] ++
      (columnList r.columns ++ Reference.optionTexts r.options)))) := rfl
  rw [hshape]
  refine Tracks.bind hword fun _ _ => ?_
  refine Tracks.bind (tracks_gap1 hR (by decide) (by decide) ?_) fun _ _ => ?_
  · rw [List.append_assoc]
    exact settles_isName hR r.table_isName _
  refine Tracks.bind (tracks_isName hR r.table_isName (wordEnds_space _)) fun _ _ => ?_
  refine Tracks.bind (tracks_gap0 hR (by decide) ?_) fun _ _ => ?_
  · rw [List.append_assoc]
    exact settles_columnList hR r.columns _
  refine Tracks.bind (tracks_indexColumns hR r.columns_ne_nil r.columns_isName _) fun _ _ => ?_
  exact hoptions.map fun _ _ => trivial

/-! ### Foreign keys -/

/-- A parenthesis is no name of an index. -/
theorem shuns_indexName_open (s : Text) : Shuns R indexName ('(' :: s) := by
  have husing : Shuns R (keyword "using") ('(' :: s) :=
    shuns_of_ledBy_cons hR (ledBy_keyword "using") (by decide) (by decide) _
  have hname : Shuns R identifier ('(' :: s) := by
    intro u hu
    obtain ⟨v, rfl⟩ := hR.head (c := '(') hu (by decide)
    exact refuses_identifier (by decide) (by decide) v
  exact Tracks.shuns_bind (f := []) husing.absent fun _ _ => hname

theorem shuns_indexName_columnList (columns : List Text) (s : Text) :
    Shuns R (gap1 *> indexName) (' ' :: (columnList columns ++ s)) :=
  shuns_spaced hR (settles_columnList hR columns s) (shuns_indexName_open hR _)

/-- Neither is the word that announces a storage method. -/
theorem shuns_indexName_using (s : Text) :
    Shuns R (gap1 *> indexName) (' ' :: ("USING".toList ++ ' ' :: s)) := by
  have husing := tracks_keyword hR "using" "USING".toList (by decide) (by decide) (wordEnds_space s)
  refine shuns_spaced hR (settles_cons hR (c := 'U') (by decide) _) fun u hu => ?_
  obtain ⟨a, v, ha, -, -⟩ := husing u hu
  exact (refuses_absent_of_ok ha).bind _

/-- A name that may be left out is tracked where none can follow in its place. -/
theorem tracks_spacedName {name : Option Text} (hname : ∀ n ∈ name, n ≠ [] ∧ backtick ∉ n)
    (hs : name = none → Shuns R (gap1 *> indexName) s) :
    Tracks R (Rule.optional (gap1 *> indexName)) (Generator.mysql.spacedName name) s
      (· = name.map (Text.quotedWith backtick)) := by
  cases name with
  | none => exact (hs rfl).optional
  | some n =>
      obtain ⟨hne, hlacks⟩ := hname n rfl
      have husing : Shuns R (keyword "using") (Text.quotedWith backtick n ++ s) :=
        shuns_of_ledBy_cons hR (ledBy_keyword "using") (c := backtick) (by decide) (by decide) _
      have hread : Tracks R indexName (Text.quotedWith backtick n) s _ :=
        husing.absent.nil_bind fun _ _ => tracks_name hR hne hlacks s
      refine (tracks_spaced hR (settles_quotedWith hR n s) hread).optional.mono fun o ho => ?_
      obtain ⟨a, rfl, rfl⟩ := ho
      rfl

/-- The words that may follow the symbol of a constraint are no symbols. -/
theorem shuns_constraintSymbol {word : String} (i : Nat)
    (hi : [keyword "primary", keyword "unique", keyword "foreign"][i]? = some (keyword word))
    (lead : Text) (hword : IsPhraseWord lead word.toList)
    (hlead : ∀ ws ∈ [["primary".toList], ["unique".toList], ["foreign".toList]].take i, ∀ w ∈ ws,
      lead.agreesWith w = false) (hs : WordEnds s) : Shuns R constraintSymbol (lead ++ s) := by
  have hled : List.Forall₂ LedBy [keyword "primary", keyword "unique", keyword "foreign"]
      [["primary".toList], ["unique".toList], ["foreign".toList]] :=
    .cons (ledBy_keyword _) (.cons (ledBy_keyword _) (.cons (ledBy_keyword _) .nil))
  have hread := tracks_firstOf_keyword hR hled i word hi lead hword hlead hs
  intro u hu
  obtain ⟨a, v, ha, -, -⟩ := hread u hu
  exact (refuses_absent_of_ok ha).bind _

/-- The word `CONSTRAINT` is tracked in front of a word that is no symbol. -/
theorem tracks_constraintText {constraint : Option (Option Text)}
    (h : ∀ symbol ∈ constraint, ∀ n ∈ symbol, n ≠ [] ∧ backtick ∉ n) (hs : Settles R s)
    (hnone : Shuns R constraintStart s) (hstop : Shuns R constraintSymbol s) :
    Tracks R (Rule.optional constraintStart) (constraintText constraint) s fun _ => True := by
  have hword : ∀ f : Text, Tracks R (keyword "constraint") "CONSTRAINT".toList (' ' :: f ++ s) _ :=
    fun f => tracks_keyword hR "constraint" _ (by decide) (by decide) (wordEnds_space _)
  have hgap := tracks_gap1 hR (w := [' ']) (by decide) (by decide) hs
  cases constraint with
  | none => exact hnone.optional.mono fun _ _ => trivial
  | some symbol =>
      cases symbol with
      | none =>
          refine (Tracks.optional (P := fun _ => True) ?_).mono fun _ _ => trivial
          refine Tracks.bind (hword []) fun _ _ => ?_
          exact (shuns_spaced hR hs hstop).optional.nil_bind fun _ _ => hgap
      | some n =>
          obtain ⟨hne, hlacks⟩ := h (some n) rfl n rfl
          have hquote : Shuns R (firstOf [keyword "primary", keyword "unique", keyword "foreign"])
              (Text.quotedWith backtick n ++ ([' '] ++ s)) :=
            shuns_of_ledBy_cons hR (ledBy_firstOf (.cons (ledBy_keyword _) (.cons (ledBy_keyword _)
              (.cons (ledBy_keyword _) .nil)))) (c := backtick) (by decide) (by decide) _
          have hsymbol : Tracks R constraintSymbol (Text.quotedWith backtick n) ([' '] ++ s) _ :=
            hquote.absent.nil_bind fun _ _ => tracks_name hR hne hlacks _
          have hspaced := tracks_spaced hR (settles_quotedWith hR n _) hsymbol
          refine (Tracks.optional (P := fun _ => True) ?_).mono fun _ _ => trivial
          refine Tracks.bind (hword (Text.quotedWith backtick n ++ [' '])) fun _ _ => ?_
          exact hspaced.optional.bind fun _ _ => hgap

/-- In front of the words of a foreign key as well. -/
theorem tracks_constraintText_foreign {constraint : Option (Option Text)}
    (h : ∀ symbol ∈ constraint, ∀ n ∈ symbol, n ≠ [] ∧ backtick ∉ n) (s : Text) :
    Tracks R (Rule.optional constraintStart) (constraintText constraint)
      ("FOREIGN KEY".toList ++ s) fun _ => True := by
  refine tracks_constraintText hR h (settles_cons hR (by decide) _) ?_ ?_
  · exact shuns_of_ledBy hR ledBy_constraintStart "FOREIGN".toList (by decide) (by decide)
      (" KEY".toList ++ s)
  · exact shuns_constraintSymbol hR 2 rfl "FOREIGN".toList (by decide) (by decide)
      (wordEnds_space ("KEY".toList ++ s))

/-- A word that may follow after a gap does not follow a definition. -/
theorem shuns_of_definitionEnds {α : Type} {p : Rule α} {ws : List Text} (hs : DefinitionEnds s)
    (hled : p.LedBy ws) (hws : ∀ w ∈ ws, Text.agreesWith [')'] w = false) :
    Shuns R (gap1 *> p) s := by
  rcases hs with hs | ⟨t, rfl⟩
  · exact (settles_itemEnds hR hs).shuns_gap1 _
  · have hclose : Settles R (')' :: t) := settles_cons hR (by decide) t
    exact Tracks.shuns_bind (f := ['\n']) (tracks_gap1 hR (by decide) (by decide) hclose)
      fun _ _ => shuns_of_ledBy_cons hR hled (by decide) hws t

/-- **A foreign key is tracked** wherever a definition may end. -/
theorem tracks_foreignKeyDefinition (k : ForeignKey) (hs : DefinitionEnds s) :
    Tracks R foreignKeyDefinition k.text s fun _ => True := by
  have hlist := settles_columnList hR k.columns
  have hreference : Settles R (k.reference.text ++ s) := settles_cons hR (c := 'R') (by decide) _
  have hname : WordEnds (Generator.mysql.spacedName k.name ++ ([' '] ++ (columnList k.columns ++
      ([' '] ++ k.reference.text))) ++ s) := by
    cases k.name <;> exact wordEnds_space _
  have hwords := tracks_keywords hR "foreign key" _ ["FOREIGN".toList, "KEY".toList] _ rfl rfl
    (by decide) hname
  refine Tracks.matched (P := fun _ => True) ?_
  refine Tracks.bind (tracks_constraintText_foreign hR k.symbol_quotable _) fun _ _ => ?_
  refine Tracks.bind hwords fun _ _ => ?_
  refine Tracks.bind (tracks_spacedName hR k.name_quotable fun _ => ?_) fun _ _ => ?_
  · simpa using shuns_indexName_columnList hR k.columns ([' '] ++ k.reference.text ++ s)
  refine Tracks.bind (tracks_gap0 hR (by decide) ?_) fun _ _ => ?_
  · simpa using hlist ([' '] ++ k.reference.text ++ s)
  refine Tracks.bind (tracks_indexColumns hR k.columns_ne_nil k.columns_isName _) fun _ _ => ?_
  refine Tracks.bind (tracks_gap1 hR (by decide) (by decide) hreference) fun _ _ => ?_
  exact tracks_referenceDefinition hR k.reference hs.stops.wordEnds
    (shuns_of_definitionEnds hR hs ledBy_referenceOption (by decide))

/-- **No index is read in the place of a foreign key**, although both may start with the word
`CONSTRAINT`. -/
theorem shuns_indexDefinition_foreignKey (k : ForeignKey) (s : Text) :
    Shuns R indexDefinition (k.text ++ s) := by
  have hshape : ∃ t, k.text ++ s = constraintText k.constraint ++ ("FOREIGN KEY".toList ++ t) := by
    simp only [ForeignKey.text, List.append_assoc]
    exact ⟨_, rfl⟩
  obtain ⟨t, hshape⟩ := hshape
  rw [hshape]
  have hconstrained : ∀ {p : Rule Source.Index} {word : Text}, p.LedBy [word] →
      Text.agreesWith "FOREIGN".toList word = false →
      Shuns R (Rule.optional constraintStart >>= fun _ => p)
        (constraintText k.constraint ++ ("FOREIGN KEY".toList ++ t)) := by
    intro p word hled hword
    refine Tracks.shuns_bind (tracks_constraintText_foreign hR k.symbol_quotable t) fun _ _ => ?_
    refine shuns_of_ledBy hR hled "FOREIGN".toList (by decide) (fun w hw => ?_) (" KEY".toList ++ t)
    obtain rfl : w = word := by simpa using hw
    exact hword
  have hother : ∀ {p : Rule Source.Index} {ws : List Text}, p.LedBy ws →
      (∀ w ∈ ws, Text.agreesWith ['C'] w = false) → (∀ w ∈ ws, Text.agreesWith ['F', 'O'] w = false) →
      Shuns R p (constraintText k.constraint ++ ("FOREIGN KEY".toList ++ t)) := by
    intro p ws hled hc hf
    cases k.constraint with
    | none => exact shuns_of_ledBy hR hled ['F', 'O'] (by decide) hf ("REIGN KEY".toList ++ t)
    | some symbol =>
        cases symbol <;> exact shuns_of_ledBy_cons hR hled (c := 'C') (by decide) hc _
  have hprimary : LedBy (do let _ ← keywords "primary key"; indexBody .primary false)
      ["primary".toList] := (ledBy_keywords rfl).bind _
  have hunique : LedBy (do let _ ← keyword "unique"; let _ ← indexWord?; indexBody .unique true)
      ["unique".toList] := (ledBy_keyword _).bind _
  have hfulltext : fulltextDefinition.LedBy ["fulltext".toList] := (ledBy_keyword _).bind _
  have hspatial : spatialDefinition.LedBy ["spatial".toList] := (ledBy_keyword _).bind _
  have hplain : plainDefinition.LedBy ["key".toList, "index".toList] :=
    ((ledBy_keyword "key").orElse (ledBy_keyword "index")).bind _
  intro u hu
  refine refuses_firstOf fun p hp => ?_
  simp only [List.mem_cons, List.not_mem_nil, or_false] at hp
  rcases hp with rfl | rfl | rfl | rfl | rfl
  · exact hconstrained hprimary (by decide) u hu
  · exact hconstrained hunique (by decide) u hu
  · exact hother hfulltext (by decide) (by decide) u hu
  · exact hother hspatial (by decide) (by decide) u hu
  · exact hother hplain (by decide) (by decide) u hu

end SchemaDelta.Decorated
