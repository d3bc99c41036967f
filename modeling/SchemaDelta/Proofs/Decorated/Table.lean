/-
**Tables, read side by side with an aligned text.**

A written table may be temporary and may leave an existing one alone, foreign keys may stand among
its definitions, and options behind the parenthesis.  What is read is the creation of the same table
as without them, and so it is in every text that differs in its gaps only.

Main definitions:

* `SchemaDelta.Decorated.Table` — a table with what is left out;
* `SchemaDelta.Decorated.Table.plain` — a table that nothing is left out of;
* `SchemaDelta.Table.reread` — the table that is read where a table is written.

Main results:

* `SchemaDelta.Decorated.tracks_createDefinition` — definitions are tracked;
* `SchemaDelta.Decorated.tracks_createTable` — **the creation of a table is tracked**;
* `SchemaDelta.Decorated.read_of_alignment` — **a text that is aligned with a table is read** as the
  only statement, which creates the table.
-/

import SchemaDelta.Proofs.Decorated.Column
import SchemaDelta.Proofs.Exchange.Table
import SchemaDelta.Proofs.Reading

set_option relaxedAutoImplicit false
set_option autoImplicit false

namespace SchemaDelta

/-! ### What is read of a table -/

/-- The column or index that is read where the given one is written. -/
def Item.reread : Item → Item
  | .inl f => .inl f.reread
  | .inr i => .inr i

/-- The table that is read where the given one is written. -/
def Table.reread (t : Table) : Table :=
  { t with fields := t.fields.map Field.reread }

/-- The tables that can be written without loss, but for the case of the letters of a type. -/
structure Table.Legible (t : Table) : Prop where
  name : backtick ∉ t.name
  fields : ∀ f ∈ t.fields, f.Legible
  declared : ∀ i ∈ t.declared, i.Plain

theorem Table.Plain.legible {t : Table} (h : t.Plain) (ht : t.WellFormed) : t.Legible where
  name := h.name
  fields f hf := (h.fields f hf).legible (ht.fields f hf)
  declared := h.declared

theorem Table.Plain.reread_eq {t : Table} (h : t.Plain) (ht : t.WellFormed) : t.reread = t := by
  have hfields : t.fields.map Field.reread = t.fields := by
    calc t.fields.map Field.reread = t.fields.map id :=
          List.map_congr_left fun f hf => (h.fields f hf).reread_eq (ht.fields f hf)
      _ = t.fields := List.map_id _
  rw [reread, hfields]

theorem Table.items_reread (t : Table) : t.reread.items = t.items.map Item.reread := by
  simp [Table.items, Table.reread, Item.reread, Function.comp_def]

namespace Decorated

open Rule Lexeme Source Exchange SchemaDelta.Alignment

/-! ### What is written -/

/-- What stands between the parentheses of a table. -/
inductive Definition where
  | column (c : Column)
  | index (i : SchemaDelta.Index)
  | foreignKey (k : ForeignKey)

def Definition.text : Definition → Text
  | .column c => c.text
  | .index i => Generator.mysql.index i
  | .foreignKey k => k.text

/-- What is kept of a definition. -/
def Definition.item? : Definition → Option Item
  | .column c => some (.inl c.field)
  | .index i => some (.inr i)
  | .foreignKey _ => none

/-- A definition with white space in front. -/
structure Line where
  indent : Text
  definition : Definition
  indent_isSpace : indent.all isSpace = true

/-- The value of an option: a string or a word. -/
inductive OptionValue where
  | string (s : Quoted)
  | word (w : Text) (hne : w ≠ []) (hword : ∀ c ∈ w, isWordChar c = true)

def OptionValue.text : OptionValue → Text
  | .string s => s.text
  | .word w _ _ => w

/-- An option of a table, with an equals sign between its name and its value. -/
structure TableOption where
  name : Text
  value : OptionValue
  name_ne_nil : name ≠ []
  name_isWord : ∀ c ∈ name, isWordChar c = true

def TableOption.text (o : TableOption) : Text :=
  o.name ++ ('=' :: o.value.text)

/-- A table with what is left out of it. -/
structure Table where
  temporary : Bool
  ifNotExists : Bool
  table : SchemaDelta.Table
  lines : List Line
  options : List TableOption
  lines_ne_nil : lines ≠ []
  lines_kept : lines.filterMap (·.definition.item?) = table.items

namespace Table

/-- The words in front of the name. -/
def startText (d : Table) : Text :=
  "CREATE".toList ++ ((if d.temporary then " TEMPORARY".toList else []) ++ ([' '] ++
    ("TABLE".toList ++ ((if d.ifNotExists then " IF NOT EXISTS".toList else []) ++ [' ']))))

/-- The definitions with commas between them. -/
def linesText (d : Table) : Text :=
  Text.joinWith [','] (d.lines.map fun l => l.indent ++ l.definition.text)

def optionsText (d : Table) : Text :=
  d.options.flatMap fun o => ' ' :: o.text

def text (d : Table) : Text :=
  d.startText ++ (Text.quotedWith backtick d.table.name ++ ([' '] ++
    (('(' :: (d.linesText ++ ['\n', ')'])) ++ (d.optionsText ++ [';']))))

end Table

/-! ### Tables that nothing is left out of -/

def Definition.plain : Item → Definition
  | .inl f => .column (Column.plain f)
  | .inr i => .index i

theorem Definition.item?_plain (e : Item) : (Definition.plain e).item? = some e := by
  cases e <;> rfl

theorem Definition.text_plain (e : Item) : (Definition.plain e).text = e.text := by
  cases e with
  | inl f => exact Column.text_plain f
  | inr i => rfl

/-- The line of a column or an index, as it is written. -/
def Line.plain (e : Item) : Line where
  indent := ['\n', ' ', ' ']
  definition := Definition.plain e
  indent_isSpace := by decide

/-- A table as it is written, with nothing else in it. -/
def Table.plain (t : SchemaDelta.Table) (hne : t.items ≠ []) : Table where
  temporary := false
  ifNotExists := false
  table := t
  lines := t.items.map Line.plain
  options := []
  lines_ne_nil := by simpa using hne
  lines_kept := by
    rw [List.filterMap_map]
    exact (List.filterMap_congr fun e _ => Definition.item?_plain e).trans List.filterMap_some

theorem Table.text_plain (t : SchemaDelta.Table) (hne : t.items ≠ []) :
    (Table.plain t hne).text = Generator.mysql.createTable t := by
  obtain ⟨e, es, hitems⟩ := List.exists_cons_of_ne_nil hne
  have hline : ∀ e : Item, (Line.plain e).indent ++ (Line.plain e).definition.text =
      ['\n', ' ', ' '] ++ e.text :=
    fun e => congrArg _ (Definition.text_plain e)
  have hlines : (Table.plain t hne).linesText = ['\n', ' ', ' '] ++ (e.text ++
      es.flatMap fun e => [',', '\n', ' ', ' '] ++ e.text) := by
    simp only [Table.linesText, Table.plain, hitems, List.map_map, List.map_cons,
      Function.comp_def, hline, Text.joinWith_cons, List.flatMap_map, List.append_assoc]
    rfl
  have hstart : (Table.plain t hne).startText = "CREATE TABLE ".toList := rfl
  have hoptions : (Table.plain t hne).optionsText = [] := rfl
  have hname : (Table.plain t hne).table = t := rfl
  rw [← List.append_nil (Generator.mysql.createTable t), createTable_eq hitems, Item.lines_eq,
    Table.text, hlines, hstart, hoptions, hname]
  unfold headText
  simp only [List.flatMap_map, List.append_assoc, List.cons_append, List.nil_append]

variable {R : Text → Text → Prop} (hR : Alignment R) {s t : Text}

/-! ### Definitions -/

section

include hR

/-- **A definition is tracked**, and what is read of it means what is kept of it. -/
theorem tracks_createDefinition (d : Definition)
    (hd : ∀ e ∈ d.item?, e.WellFormed)
    (hfield : ∀ f, d.item? = some (.inl f) → f.Legible)
    (hindex : ∀ i, d.item? = some (.inr i) → i.Plain)
    (hintact : ∀ f, d.item? = some (.inl f) →
      ∀ raw, .default (.unclassified raw) ∈ f.qualifiers → Intact R raw)
    (hs : DefinitionEnds s) :
    Tracks R createDefinition d.text s (·.item? = d.item?.map Item.reread) := by
  cases d with
  | column c =>
      have hread := tracks_fieldDefinition hR c (hd _ rfl) (hfield _ rfl) hs (hintact _ rfl)
      have hshape : ∃ t, c.text ++ s = backtick :: t := ⟨_, rfl⟩
      obtain ⟨t, ht⟩ := hshape
      refine tracks_firstOf_of_shuns [_, _] [] (fun p hp => ?_)
        ((hread.within _).map fun g hg => ?_)
      · simp only [List.mem_cons, List.not_mem_nil, or_false] at hp
        rw [Definition.text, ht]
        rcases hp with rfl | rfl
        · exact (shuns_of_ledBy_cons hR ledBy_indexDefinition (by decide) (by decide) t).map _
        · exact (shuns_of_ledBy_cons hR ledBy_foreignKeyDefinition (by decide) (by decide) t).map _
      · rw [Source.Definition.item?, hg]
        rfl
  | index i =>
      have hread := tracks_indexDefinition hR (hd _ rfl) (hindex i rfl) hs
      refine tracks_firstOf_of_shuns [] _ (by simp) (hread.map fun j hj => ?_)
      rw [Source.Definition.item?, hj]
      rfl
  | foreignKey k =>
      have hread := tracks_foreignKeyDefinition hR k hs
      refine tracks_firstOf_of_shuns [_] _ (fun p hp => ?_) (hread.map fun _ _ => rfl)
      obtain rfl : p = _ := by simpa using hp
      exact (shuns_indexDefinition_foreignKey hR k s).map _

theorem Definition.settles (d : Definition) (s : Text) : Settles R (d.text ++ s) := by
  cases d with
  | column c => exact settles_cons hR (c := backtick) (by decide) _
  | index i =>
      have hwords : ∀ t, Settles R (i.words.toList ++ t) := by
        intro t
        rw [Index.words]
        split_ifs <;> exact settles_cons hR (by decide) _
      simp only [Definition.text, Generator.index, List.append_assoc]
      exact hwords _
  | foreignKey k =>
      have hconstraint : ∀ t, Settles R (constraintText k.constraint ++ ("FOREIGN KEY".toList ++ t)) := by
        intro t
        cases k.constraint with
        | none => exact settles_cons hR (c := 'F') (by decide) _
        | some symbol => cases symbol <;> exact settles_cons hR (c := 'C') (by decide) _
      simp only [Definition.text, ForeignKey.text, List.append_assoc]
      exact hconstraint _

omit hR in
/-- What is read of the lines means what is kept of them. -/
theorem filterMap_item {ls : List Line} {Ds : List Source.Definition}
    (h : List.Forall₂ (fun l D => D.item? = l.definition.item?.map Item.reread) ls Ds) :
    Ds.filterMap Source.Definition.item? =
      (ls.filterMap (·.definition.item?)).map Item.reread := by
  induction h with
  | nil => rfl
  | @cons l D ls Ds hD _ ih =>
      rw [List.filterMap_cons, List.filterMap_cons, hD, ih]
      cases l.definition.item? <;> rfl

end

/-- The defaults of a table are changed by nothing that stands behind them in the second text. -/
def TableIntact (R : Text → Text → Prop) (t : SchemaDelta.Table) : Prop :=
  ∀ f ∈ t.fields, ∀ raw, .default (.unclassified raw) ∈ f.qualifiers → Intact R raw

section

variable {d : Table} (hwell : d.table.WellFormed) (hlegible : d.table.Legible)
  (hintact : TableIntact R d.table)

include hR hwell hlegible hintact

/-- A definition of a table is tracked. -/
theorem tracks_line {l : Line} (hl : l ∈ d.lines) (hs : DefinitionEnds s) :
    Tracks R createDefinition l.definition.text s
      (·.item? = l.definition.item?.map Item.reread) := by
  have hmem : ∀ e, l.definition.item? = some e → e ∈ d.table.items :=
    fun e he => d.lines_kept ▸ List.mem_filterMap.2 ⟨l, hl, he⟩
  have hfields : ∀ f, l.definition.item? = some (.inl f) → f ∈ d.table.fields :=
    fun f hf => SchemaDelta.Table.inl_mem_items.1 (hmem _ hf)
  have hdeclared : ∀ i, l.definition.item? = some (.inr i) → i ∈ d.table.declared :=
    fun i hi => SchemaDelta.Table.inr_mem_items.1 (hmem _ hi)
  exact tracks_createDefinition hR l.definition (fun e he => hwell.items e (hmem e he))
    (fun f hf => hlegible.fields f (hfields f hf)) (fun i hi => hlegible.declared i (hdeclared i hi))
    (fun f hf => hintact f (hfields f hf)) hs

/-- **The definitions of a table are tracked** in their parentheses. -/
theorem tracks_lines (s : Text) :
    Tracks R (parenthesized createDefinitions) ('(' :: (d.linesText ++ ['\n', ')'])) s
      (·.filterMap Source.Definition.item? = d.table.items.map Item.reread) := by
  obtain ⟨l, ls, hlines⟩ := List.exists_cons_of_ne_nil d.lines_ne_nil
  have hclose : ∀ s : Text, Shuns R (comma *> commit createDefinition) ('\n' :: ')' :: s) :=
    fun s => shuns_comma hR (w := ['\n']) (by decide) (c := ')') (by decide) (by decide) s _
  have hends : ∀ back : List Line, DefinitionEnds
      (back.flatMap (fun l => (',' :: l.indent) ++ l.definition.text) ++ '\n' :: ')' :: s) := by
    intro back
    cases back with
    | nil => exact .inr ⟨s, rfl⟩
    | cons l back => exact .inl ⟨',', _, rfl, .inl rfl⟩
  have hlist : Tracks R createDefinitions
      (l.definition.text ++ ls.flatMap fun l => (',' :: l.indent) ++ l.definition.text)
      (['\n'] ++ ')' :: s)
      (List.Forall₂ (fun l D => D.item? = l.definition.item?.map Item.reread) (l :: ls)) := by
    refine tracks_sepBy1 (fun l => l.definition.text) (fun l => ',' :: l.indent) takes_comma_seq
      (hclose s) l ls (fun front c back _ => ?_) fun front c back heq => ?_
    · exact tracks_comma hR c.indent_isSpace (c.definition.settles hR _)
    · have hc : c ∈ d.lines := by simp [hlines, heq]
      exact (tracks_line hR hwell hlegible hintact hc (hends back)).commit
  have hsettles : Settles R ((l.definition.text ++ ls.flatMap fun l =>
      (',' :: l.indent) ++ l.definition.text) ++ (['\n'] ++ ')' :: s)) := by
    rw [List.append_assoc]
    exact l.definition.settles hR _
  have hshape : '(' :: (d.linesText ++ ['\n', ')']) = '(' :: (l.indent ++ ((l.definition.text ++
      ls.flatMap fun l => (',' :: l.indent) ++ l.definition.text) ++ (['\n'] ++ [')']))) := by
    simp [Table.linesText, hlines, Text.joinWith_cons, List.flatMap_map]
  rw [hshape]
  refine (tracks_parenthesized hR l.indent_isSpace (by decide) hsettles hlist).mono
    fun Ds hDs => ?_
  rw [filterMap_item hDs, ← hlines, d.lines_kept]

end

/-! ### Options -/

/-- A word that goes on is no keyword in front of a gap. -/
theorem refuses_keyword_gap1 (word : String) (hplain : word.toList.all isPlainLetter = true)
    (hword : word.toList.all isWordChar = true) {name : Text}
    (hname : ∀ c ∈ name, isWordChar c = true) {c : Char} (hc : isGapStart c = false)
    (hends : isWordChar c = false) (rest : Text) :
    (keyword word >>= fun _ => gap1).Refuses (name ++ c :: rest) := by
  refine ((mild_keyword word).bind fun _ => mild_gap1).refuses fun u last h => ?_
  obtain ⟨t, mid, hread, hgap⟩ := bind_eq_ok_iff.1 h
  obtain ⟨⟨happend, hletters⟩, hmid⟩ := (keyword_eq_ok_iff hplain).1 hread
  have hchars := isWordChar_of_map_lowerChar hplain hword hletters
  -- both the name and the keyword are the first word of the text
  have hrest : mid = c :: rest := by
    have hdrop := congrArg (List.dropWhile isWordChar) happend
    rw [List.dropWhile_append_of_pos hname, List.dropWhile_append_of_pos hchars,
      List.dropWhile_cons_of_neg (by simp [hends])] at hdrop
    cases mid with
    | nil => cases hdrop
    | cons d mid =>
        rw [List.dropWhile_cons_of_neg (by simp [hmid d rfl])] at hdrop
        exact hdrop.symm
  obtain ⟨why, hno⟩ := refuses_gap1 (solid_of_head hc rest)
  rw [hrest, hno] at hgap
  cases hgap

section

include hR

theorem OptionValue.settles (v : OptionValue) (s : Text) : Settles R (v.text ++ s) := by
  cases v with
  | string q => exact q.settles hR s
  | word w hne hword => exact settles_word hR hne hword s

/-- The value of an option is tracked where nothing that follows in the second text is part of a
word. -/
theorem tracks_optionValue (v : OptionValue) (hs : s.head? = some ' ' ∨ s.head? = some ';')
    (hends : ∀ u, R s u → ∀ c ∈ u.head?, isOptionChar c = false) :
    Tracks R (quotedString.matched <|> span1 isOptionChar) v.text s fun _ => True := by
  cases v with
  | string q =>
      have hquote : ∀ c ∈ s.head?, c ≠ q.quote := by
        intro c hc
        rcases q.isQuote with hq | hq <;> rcases hs with hs | hs <;>
          · rw [hs] at hc
            cases hc
            rw [hq]
            decide
      exact (tracks_quoted hR q hquote).matched.orElse _
  | word w hne hword =>
      have hoption : ∀ c ∈ w, isOptionChar c = true := fun c hc => by
        simp [isOptionChar, hword c hc]
      have hread : Tracks R (span1 isOptionChar) w s fun _ => True :=
        (copies_bare hR (all_isBare_of_word hword)).tracks fun u hu =>
          ⟨w, span1_append hne hoption (hends u hu), trivial⟩
      have hstring : Shuns R quotedString (w ++ s) := by
        obtain ⟨c, t, rfl⟩ := List.exists_cons_of_ne_nil hne
        have hc := hword c List.mem_cons_self
        intro u hu
        obtain ⟨v, rfl, -⟩ := copies_bare hR (all_isBare_of_word hword) u hu
        exact refuses_quotedString (Text.isNameQuote_of_isWordChar hc) _
      exact Shuns.orElse_tracks (fun u hu => (hstring u hu).matched) hread

/-- A space stands for the separator in front of the name of an option. -/
theorem tracks_optionSeparator (o : TableOption) (t : Text) :
    Tracks R optionSeparator [' '] (o.name ++ t) fun _ => True := by
  have hsettles := settles_word hR o.name_ne_nil o.name_isWord t
  have hcomma : Shuns R (char ',') (o.name ++ t) := by
    have hname := o.name_isWord
    obtain ⟨c, u, hu⟩ := List.exists_cons_of_ne_nil o.name_ne_nil
    rw [hu] at hname ⊢
    have hc := hname c List.mem_cons_self
    have hspace := (settles_cons hR (isGapStart_of_isWordChar hc) []).head c rfl
    refine shuns_char hR hspace ?_ _
    rintro rfl
    exact absurd hc (by decide)
  refine Tracks.bind_nil (tracks_gap0 hR (by decide) hsettles) fun _ _ => ?_
  exact hcomma.optional.bind_nil fun _ _ => hsettles.gap0

/-- The name of an option may start with another word, but then it goes on. -/
theorem shuns_keyword_optionName (o : TableOption) (word : String)
    (hplain : word.toList.all isPlainLetter = true) (hword : word.toList.all isWordChar = true)
    (t : Text) : Shuns R (keyword word >>= fun _ => gap1) (o.name ++ '=' :: t) := by
  intro u hu
  obtain ⟨v, rfl, hv⟩ := copies_bare hR (all_isBare_of_word o.name_isWord) u hu
  obtain ⟨x, rfl⟩ := hR.head hv (by decide)
  exact refuses_keyword_gap1 word hplain hword o.name_isWord (c := '=') (by decide) (by decide) x

/-- **An option is tracked** with the space in front of it. -/
theorem tracks_tableOption (o : TableOption) (hs : s.head? = some ' ' ∨ s.head? = some ';')
    (hends : ∀ u, R s u → ∀ c ∈ u.head?, isOptionChar c = false) :
    Tracks R (optionSeparator *> tableOption) (' ' :: o.text) s fun _ => True := by
  have hshape : o.name ++ ('=' :: o.value.text) ++ s = o.name ++ '=' :: (o.value.text ++ s) :=
    List.append_assoc _ _ _
  have hseparator : Tracks R optionSeparator [' '] (o.name ++ ('=' :: o.value.text) ++ s) _ :=
    hshape ▸ tracks_optionSeparator hR o _
  have hdefault : Shuns R (keyword "default" *> gap1) (o.name ++ ('=' :: o.value.text) ++ s) :=
    hshape ▸ shuns_keyword_optionName hR o "default" (by decide) (by decide) _
  have hset : Shuns R (keywords "character set") (o.name ++ '=' :: (o.value.text ++ s)) := by
    intro u hu
    have hcharacter := shuns_keyword_optionName hR o "character" (by decide) (by decide) _ u hu
    have hwords := hcharacter.bind fun _ => Functor.discard (keyword "set")
    rw [bind_assoc] at hwords
    exact hwords.matched
  have hname := tracks_bareIdentifier hR o.name_ne_nil o.name_isWord
    (wordEnds_cons (c := '=') (by decide) (o.value.text ++ s))
  have hvalue := o.value.settles hR s
  refine Tracks.bind (f := [' ']) hseparator fun _ _ => ?_
  refine hdefault.optional.nil_bind fun _ _ => ?_
  refine Tracks.bind (P := fun _ => True) ?_ fun _ _ => ?_
  · exact Shuns.orElse_tracks hset (hname.mono fun _ _ => trivial)
  refine (settles_cons hR (c := '=') (by decide) _).gap0.nil_bind fun _ _ => ?_
  refine Tracks.bind (f := ['=']) (tracks_char hR (by decide) _).optional fun _ _ => ?_
  refine hvalue.gap0.nil_bind fun _ _ => ?_
  exact (tracks_optionValue hR o.value hs hends).map fun _ _ => trivial

/-- **The options of a table are tracked** up to the semicolon. -/
theorem tracks_options {d : Table} (hsame : d.options = [] ∨ ∀ s u, R s u → s = u) (s : Text) :
    Tracks R (Rule.many (optionSeparator *> tableOption)) d.optionsText (';' :: s)
      fun _ => True := by
  have hstop : Shuns R (optionSeparator *> tableOption) (';' :: s) := by
    intro u hu
    obtain ⟨v, rfl⟩ := hR.head hu (by decide)
    exact refuses_option (gap0_cons (by decide) v)
  refine (tracks_many (Q := fun _ _ => True) _ takes_separatedOption hstop d.options
    fun front o back heq => ?_).mono fun _ _ => trivial
  have hhead : (back.flatMap (fun o => ' ' :: o.text) ++ ';' :: s).head? = some ' ' ∨
      (back.flatMap (fun o => ' ' :: o.text) ++ ';' :: s).head? = some ';' := by
    cases back with
    | nil => exact .inr rfl
    | cons o back => exact .inl rfl
  refine tracks_tableOption hR o hhead fun u hu c hc => ?_
  rcases hsame with hnone | hsame
  · simp [hnone] at heq
  · rw [← hsame _ u hu] at hc
    rcases hhead with h | h <;>
      · rw [h] at hc
        cases hc
        decide

end

/-! ### Tables -/

section

variable {d : Table} (hwell : d.table.WellFormed) (hlegible : d.table.Legible)
  (hsame : d.options = [] ∨ ∀ s u, R s u → s = u) (hintact : TableIntact R d.table)

include hR

/-- Words that may be left out are tracked with a space in front of them. -/
theorem tracks_flag {α : Type} {p : Rule α} {P : α → Prop} {words s : Text} (b : Bool)
    (hs : Settles R s) (hwords : Settles R (words ++ ' ' :: s)) (hread : Tracks R p words (' ' :: s) P)
    (hnone : Shuns R p s) :
    Tracks R (Rule.optional (gap1 *> p)) (if b then ' ' :: words else []) (' ' :: s)
      fun _ => True := by
  cases b with
  | true => exact (tracks_spaced hR hwords hread).optional.mono fun _ _ => trivial
  | false => exact (shuns_spaced hR hs hnone).optional.mono fun _ _ => trivial

omit hR in
theorem wordEnds_flag (b : Bool) (words s : Text) :
    WordEnds ((if b then ' ' :: words else []) ++ ' ' :: s) := by
  cases b <;> exact wordEnds_space _

/-- The words that leave an existing table alone are tracked in front of the name. -/
theorem tracks_ifNotExists (b : Bool) (t : Text) :
    Tracks R (Rule.optional (gap1 *> keywords "if not exists"))
      (if b then " IF NOT EXISTS".toList else []) (' ' :: backtick :: t) fun _ => True := by
  have hwords := tracks_keywords hR "if not exists" _ ["IF".toList, "NOT".toList, "EXISTS".toList] _
    rfl rfl (by decide) (wordEnds_space (backtick :: t))
  refine tracks_flag hR b (settles_cons hR (by decide) t) ?_ hwords ?_
  · exact settles_cons hR (c := 'I') (by decide) _
  · exact shuns_of_ledBy_cons hR (ledBy_keywords rfl) (by decide) (by decide) t

/-- The word for a temporary table is tracked in front of the one for a table. -/
theorem tracks_temporary (b : Bool) (t : Text) :
    Tracks R (Rule.optional (gap1 *> keyword "temporary")) (if b then " TEMPORARY".toList else [])
      (' ' :: ("TABLE".toList ++ t)) fun _ => True := by
  have hword := tracks_keyword hR "temporary" "TEMPORARY".toList (by decide) (by decide)
    (wordEnds_space ("TABLE".toList ++ t))
  refine tracks_flag hR b (settles_cons hR (c := 'T') (by decide) _) ?_ hword ?_
  · exact settles_cons hR (c := 'T') (by decide) _
  · exact shuns_of_ledBy hR (ledBy_keyword "temporary") "TABLE".toList (by decide) (by decide) t

/-- The words in front of the name of a table are tracked. -/
theorem tracks_tableStart (d : Table) (t : Text) :
    Tracks R tableStart d.startText (backtick :: t) fun _ => True := by
  have hname : Settles R (backtick :: t) := settles_cons hR (by decide) t
  have htable : ∀ u : Text, Settles R ("TABLE".toList ++ u) :=
    fun u => settles_cons hR (c := 'T') (by decide) _
  have hshape : ∀ v : Text, [' '] ++ ("TABLE".toList ++ v) ++ backtick :: t =
      ' ' :: ("TABLE".toList ++ (v ++ backtick :: t)) := fun _ => rfl
  refine Tracks.bind (tracks_keyword hR "create" "CREATE".toList (by decide) (by decide) ?_)
    fun _ _ => ?_
  · rw [List.append_assoc, hshape]
    exact wordEnds_flag d.temporary "TEMPORARY".toList _
  refine Tracks.bind (P := fun _ => True) ?_ fun _ _ => ?_
  · rw [hshape]
    exact tracks_temporary hR d.temporary _
  refine Tracks.bind (tracks_gap1 hR (by decide) (by decide) (htable _)) fun _ _ => ?_
  refine Tracks.bind (tracks_keyword hR "table" "TABLE".toList (by decide) (by decide) ?_)
    fun _ _ => ?_
  · rw [List.append_assoc]
    exact wordEnds_flag d.ifNotExists "IF NOT EXISTS".toList _
  refine Tracks.bind (tracks_ifNotExists hR d.ifNotExists t) fun _ _ => ?_
  exact (tracks_gap1 hR (by decide) (by decide) hname).bind_nil fun _ _ => tracks_pure trivial

/-- The words for the creation of a table do not create a database. -/
theorem shuns_createDatabase (d : Table) (s : Text) : Shuns R createDatabase (d.text ++ s) := by
  obtain ⟨t, ht⟩ : ∃ t, d.text ++ s = "CREATE".toList ++ (' ' :: 'T' :: t) := by
    simp only [Table.text, Table.startText, List.append_assoc]
    cases d.temporary <;> exact ⟨_, rfl⟩
  have hcreate := tracks_keyword hR "create" "CREATE".toList (by decide) (by decide)
    (wordEnds_space ('T' :: t))
  have hkind : Shuns R (keyword "database" <|> keyword "schema") ('T' :: t) :=
    shuns_of_ledBy_cons hR ((ledBy_keyword _).orElse (ledBy_keyword _)) (by decide) (by decide) t
  have hgap := tracks_gap1 hR (w := [' ']) (by decide) (by decide)
    (settles_cons hR (c := 'T') (by decide) t)
  rw [ht]
  refine hcreate.shuns_bind fun _ _ => ?_
  exact Tracks.shuns_bind (f := [' ']) hgap fun _ _ => hkind.bind _

include hwell hlegible hsame hintact

/-- **The creation of a table is tracked**, and what is read of it means the table without what is
left out. -/
theorem tracks_createTable (s : Text) :
    Tracks R createTable d.text s (·.meaning = d.table.reread) := by
  have hsemicolon : Settles R (';' :: s) := settles_cons hR (by decide) s
  have hend : Tracks R statementEnd [';'] s fun _ => True :=
    hsemicolon.gap0.nil_bind fun _ _ =>
      (tracks_char hR (by decide) s).bind_nil fun _ _ => tracks_pure trivial
  have hbody : Tracks R tableBody (Text.quotedWith backtick d.table.name ++ ([' '] ++
      (('(' :: (d.linesText ++ ['\n', ')'])) ++ (d.optionsText ++ [';'])))) s fun body =>
        body.1 = Text.quotedWith backtick d.table.name ∧
          body.2.1.filterMap Source.Definition.item? = d.table.items.map Item.reread := by
    refine Tracks.bind (tracks_name hR hwell.name_ne_nil hlegible.name _) fun name hname => ?_
    refine Tracks.bind (tracks_gap0 hR (by decide) (settles_cons hR (c := '(') (by decide) _))
      fun _ _ => ?_
    refine Tracks.bind ((tracks_lines hR hwell hlegible hintact _).within _) fun Ds hDs => ?_
    refine Tracks.bind (tracks_options hR hsame s) fun _ _ => ?_
    exact hend.bind_nil fun _ _ => tracks_pure ⟨hname, hDs⟩
  refine Tracks.bind (tracks_tableStart hR d _) fun start _ => ?_
  refine ((hbody.within _).commit).bind_nil fun body hbody => tracks_pure ?_
  refine meaning_of_items ?_ ?_
  · rw [hbody.1, Text.unquote_quotedWith hwell.name_ne_nil hlegible.name]
    rfl
  · rw [hbody.2, SchemaDelta.Table.items_reread]

/-- So it is as a statement. -/
theorem tracks_statement (s : Text) :
    Tracks R statement d.text s (·.meaning = .createTable d.table.reread) := by
  have hlead : ∀ {α : Type} {p : Rule α} {ws : List Text}, p.LedBy ws →
      (∀ w ∈ ws, Text.agreesWith "CREATE".toList w = false) → Shuns R p (d.text ++ s) := by
    intro α p ws hled hws
    simp only [Table.text, Table.startText, List.append_assoc]
    exact shuns_of_ledBy hR hled "CREATE".toList (by decide) hws _
  refine tracks_firstOf_of_shuns (statements.take 5) _ (fun p hp => ?_)
    ((tracks_createTable hR hwell hlegible hsame hintact s).map fun T hT => congrArg _ hT)
  simp only [statements, List.take, List.mem_cons, List.not_mem_nil, or_false] at hp
  rcases hp with rfl | rfl | rfl | rfl | rfl
  · exact hlead (ledBy_comment.map _) (by decide)
  · exact hlead ((ledBy_keyword "use").bind _) (by decide)
  · exact hlead ((ledBy_keyword "set").bind _) (by decide)
  · exact hlead ((ledBy_keywords rfl).bind _) (by decide)
  · exact shuns_createDatabase hR d s

/-- **A text that is aligned with a table is read** as the only statement, which creates the
table. -/
theorem read_of_alignment {u : Text} (hu : R d.text u) :
    Schema.read u .mysql = .ok ⟨[.createTable d.table.reread]⟩ := by
  have hstatement := tracks_statement hR hwell hlegible hsame hintact []
  rw [← List.append_nil d.text] at hu
  obtain ⟨st, v, hst, hmeaning, hv⟩ := hstatement u hu
  obtain rfl := hR.nil hv
  obtain ⟨w, rfl⟩ : ∃ w, u = 'C' :: w := hR.head hu (by decide)
  have hread : readStatements ('C' :: w) = .ok [st] :=
    (readStatements_append (w := []) rfl (by decide) hst (Nat.succ_pos _)).trans
      (congrArg (Except.map _) readStatements_nil)
  rw [Schema.read_of_readStatements hread, ← hmeaning]
  rfl

end

end Decorated

end SchemaDelta
