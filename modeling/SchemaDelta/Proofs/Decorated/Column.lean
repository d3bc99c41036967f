/-
**Columns, read side by side with an aligned text.**

Behind the type of a column there may be words that belong to it, and among its qualifiers there may
be comments, values that the column takes when its row changes, and references to other tables.  All
of them are recognised and left out, in any number and at any place.

A default that is kept as it is written is the only part that what follows may change: a dash right
behind it is part of it, and together with a call behind it `now` is the time of the change.

Main definitions:

* `SchemaDelta.Decorated.Part` — a qualifier of a column, or what is left out among them;
* `SchemaDelta.Decorated.Column` — a column with what is left out;
* `SchemaDelta.Source.Continues` — what stands behind a default changes it;
* `SchemaDelta.Decorated.Intact` — that happens nowhere in the second text.

Main results:

* `SchemaDelta.Decorated.tracks_part` — qualifiers, kept or not, are tracked;
* `SchemaDelta.Decorated.tracks_fieldDefinition` — **a column is tracked**.
-/

import SchemaDelta.Proofs.Decorated.Index
import SchemaDelta.Proofs.Exchange.Column

set_option relaxedAutoImplicit false
set_option autoImplicit false

namespace SchemaDelta

/-- What stands behind a default changes it: the default goes on, or it is the time of the change. -/
def Source.Continues (raw rest : Text) : Prop :=
  (∃ t, rest = '-' :: t) ∨ ReadsAsTime (raw ++ rest)

namespace Decorated

open Rule Lexeme Source Exchange SchemaDelta.Alignment

/-! ### What is written -/

/-- A word behind a type that is left out. -/
inductive TypeWord where
  | unsigned
  | signed
  | zerofill
  | binary

def TypeWord.text : TypeWord → Text
  | .unsigned => "UNSIGNED".toList
  | .signed => "SIGNED".toList
  | .zerofill => "ZEROFILL".toList
  | .binary => "BINARY".toList

/-- The ways to write the time of the change. -/
inductive TimeName where
  | currentTimestamp
  | currentTimestampCall
  | now

def TimeName.text : TimeName → Text
  | .currentTimestamp => "CURRENT_TIMESTAMP".toList
  | .currentTimestampCall => "CURRENT_TIMESTAMP()".toList
  | .now => "NOW()".toList

/-- A string with its quotes, escapes in place. -/
structure Quoted where
  quote : Char
  body : Text
  isQuote : quote = singleQuote ∨ quote = doubleQuote
  closed : Text.splitAtQuote? quote (body ++ [quote]) = some (body, [])

def Quoted.text (s : Quoted) : Text :=
  s.quote :: (s.body ++ [s.quote])

/-- A qualifier that is kept, or one of those that are left out. -/
inductive Part where
  | kept (q : SchemaDelta.Qualifier)
  | comment (s : Quoted)
  | onUpdate (t : TimeName)
  | references (r : Reference)

def Part.text : Part → Text
  | .kept q => Generator.mysql.qualifier q
  | .comment s => "COMMENT ".toList ++ s.text
  | .onUpdate t => "ON UPDATE ".toList ++ t.text
  | .references r => r.text

def Part.kept? : Part → Option SchemaDelta.Qualifier
  | .kept q => some q
  | .comment _ | .onUpdate _ | .references _ => none

/-- The first word of a part. -/
def Part.lead : Part → Text
  | .kept .notNull => "NOT".toList
  | .kept .null => "NULL".toList
  | .kept .primaryKey => "PRIMARY".toList
  | .kept .autoIncrement => "AUTO_INCREMENT".toList
  | .kept (.characterSet _) => "CHARACTER".toList
  | .kept (.collate _) => "COLLATE".toList
  | .kept .uniqueKey => "UNIQUE".toList
  | .kept .key => "KEY".toList
  | .kept (.default _) => "DEFAULT".toList
  | .comment _ => "COMMENT".toList
  | .onUpdate _ => "ON".toList
  | .references _ => "REFERENCES".toList

/-- Words with a space in front of each. -/
def typeTexts (ws : List TypeWord) : Text :=
  ws.flatMap fun w => ' ' :: w.text

def partTexts (ps : List Part) : Text :=
  ps.flatMap fun p => ' ' :: p.text

/-- A column with what is left out of it. -/
structure Column where
  field : SchemaDelta.Field
  typeWords : List TypeWord
  parts : List Part
  parts_kept : parts.filterMap Part.kept? = field.qualifiers

def Column.text (c : Column) : Text :=
  Text.quotedWith backtick c.field.name ++ (' ' :: (Text.uppercase c.field.type ++
    (Generator.typeArgs c.field.args ++ (typeTexts c.typeWords ++ partTexts c.parts))))

/-- Nothing is left out of a column that is written without further parts. -/
def Column.plain (f : SchemaDelta.Field) : Column where
  field := f
  typeWords := []
  parts := f.qualifiers.map .kept
  parts_kept := by
    rw [List.filterMap_map]
    exact List.filterMap_some

theorem Column.text_plain (f : SchemaDelta.Field) :
    (Column.plain f).text = Generator.mysql.field f := by
  have hparts : partTexts (f.qualifiers.map .kept) =
      f.qualifiers.flatMap fun q => ' ' :: Generator.mysql.qualifier q := by
    rw [partTexts, List.flatMap_map]
    rfl
  simp [Column.text, Column.plain, hparts, typeTexts, Generator.field, Generator.mysql]

/-- The default is changed by nothing that stands behind it in the second text. -/
def Intact (R : Text → Text → Prop) (raw : Text) : Prop :=
  ∀ g s u, IsGap g → (∀ c ∈ s.head?, isTokenChar c = false) →
    R ("DEFAULT ".toList ++ (raw ++ s)) ("DEFAULT".toList ++ (g ++ (raw ++ u))) → R s u →
      ¬ Continues raw u

variable {R : Text → Text → Prop} (hR : Alignment R) {s t : Text}

/-! ### What follows a part -/

theorem Part.exists_text_eq (p : Part) : ∃ t, p.text = p.lead ++ t := by
  cases p with
  | kept q => cases q <;> exact ⟨_, rfl⟩
  | comment s => exact ⟨_, rfl⟩
  | onUpdate t => exact ⟨_, rfl⟩
  | references r => exact ⟨_, rfl⟩

theorem Part.all_isBare_lead (p : Part) : p.lead.all isBare = true := by
  cases p with
  | kept q => cases q <;> rfl
  | comment s => rfl
  | onUpdate t => rfl
  | references r => rfl

/-- What is read right behind a part or a definition. -/
structure PartEnds (R : Text → Text → Prop) (s : Text) : Prop where
  stops : Stops s
  noCall : Shuns R (gap0 *> emptyCall) s
  noOption : Shuns R (gap1 *> referenceOption) s

theorem partTexts_cons (p : Part) (ps : List Part) (s : Text) :
    partTexts (p :: ps) ++ s = ' ' :: (p.text ++ (partTexts ps ++ s)) := by
  simp [partTexts]

/-- A part starts with a letter. -/
theorem Part.exists_text_eq_cons (p : Part) (s : Text) :
    ∃ c t, p.text ++ s = c :: t ∧ isGapStart c = false ∧ c ≠ '(' := by
  cases p with
  | kept q => cases q <;> exact ⟨_, _, rfl, by decide, by decide⟩
  | comment s => exact ⟨_, _, rfl, by decide, by decide⟩
  | onUpdate t => exact ⟨_, _, rfl, by decide, by decide⟩
  | references r => exact ⟨_, _, rfl, by decide, by decide⟩

include hR

theorem Part.settles (p : Part) (s : Text) : Settles R (p.text ++ s) := by
  obtain ⟨c, t, ht, hc, -⟩ := p.exists_text_eq_cons s
  rw [ht]
  exact settles_cons hR hc t

/-- A word that the part does not start with is not read in its place. -/
theorem shuns_part {α : Type} {p : Rule α} {ws : List Text} (hled : p.LedBy ws) (q : Part)
    (hq : ws.any q.lead.agreesWith = false) (s : Text) :
    Shuns R (gap1 *> p) (' ' :: (q.text ++ s)) := by
  refine shuns_spaced hR (q.settles hR s) ?_
  obtain ⟨t, ht⟩ := q.exists_text_eq
  rw [ht, List.append_assoc]
  refine shuns_of_ledBy hR hled q.lead q.all_isBare_lead (fun w hw => ?_) (t ++ s)
  simpa using List.any_eq_false.1 hq w hw

/-- No parenthesis is opened behind a part. -/
theorem shuns_open {α : Type} (hs : DefinitionEnds s) (ps : List Part) (k : Char → Rule α) :
    Shuns R (gap0 >>= fun _ => char '(' >>= k) (partTexts ps ++ s) := by
  have hclosed : ∀ (w : Text) (c : Char) (t : Text), w.all isSpace = true → isGapStart c = false →
      c ≠ '(' → Shuns R (gap0 >>= fun _ => char '(' >>= k) (w ++ c :: t) := by
    intro w c t hw hc hne
    have hsettles := settles_cons hR hc t
    exact (tracks_gap0 hR hw hsettles).shuns_bind fun _ _ =>
      (shuns_char hR (hsettles.head c rfl) hne t).bind k
  cases ps with
  | nil =>
      rcases hs with ⟨c, t, rfl, rfl | rfl⟩ | ⟨t, rfl⟩
      · exact hclosed [] ',' t (by decide) (by decide) (by decide)
      · exact hclosed [] ')' t (by decide) (by decide) (by decide)
      · exact hclosed ['\n'] ')' t (by decide) (by decide) (by decide)
  | cons p ps =>
      obtain ⟨c, t, ht, hc, hne⟩ := p.exists_text_eq_cons (partTexts ps ++ s)
      rw [partTexts_cons, ht]
      exact hclosed [' '] c t (by decide) hc hne

/-- The time of the change is none of the actions of a foreign key. -/
theorem shuns_referenceOption_onUpdate (t : TimeName) (s : Text) :
    Shuns R referenceOption ((Part.onUpdate t).text ++ s) := by
  have hled := ledBy_firstOf ledBy_referenceActions
  have haction : Shuns R (firstOf referenceActions) (t.text ++ s) := by
    cases t with
    | currentTimestamp =>
        exact shuns_of_ledBy hR hled "CURRENT_TIMESTAMP".toList (by decide) (by decide) s
    | currentTimestampCall =>
        exact shuns_of_ledBy hR hled "CURRENT_TIMESTAMP()".toList (by decide) (by decide) s
    | now =>
        intro u hu
        obtain ⟨v, rfl, -⟩ := copies_bare hR (t := "NOW()".toList) (by decide) u hu
        refine refuses_firstOf fun p hp => ?_
        simp only [referenceActions, List.mem_cons, List.not_mem_nil, or_false] at hp
        -- the letters of the last one are there, but the word goes on
        have hno : (wholeWord "no".toList).Refuses ("NOW()".toList ++ v) :=
          refuses_wholeWord_of_append (t := ['N', 'O']) (c := 'W') (by decide) (by decide)
            ("()".toList ++ v)
        rcases hp with rfl | rfl | rfl | rfl | rfl
        · exact (ledBy_keyword "restrict").refuses "NOW".toList (by decide) _
        · exact (ledBy_keyword "cascade").refuses "NOW".toList (by decide) _
        · exact (ledBy_keywords rfl).refuses "NOW".toList (by decide) _
        · exact (ledBy_keywords rfl).refuses "NOW".toList (by decide) _
        · exact (hno.bind _).matched
  have hshape : (Part.onUpdate t).text ++ s =
      "ON".toList ++ (' ' :: ("UPDATE".toList ++ (' ' :: (t.text ++ s)))) := rfl
  have htime : Settles R (t.text ++ s) := by
    cases t <;> exact settles_cons hR (by decide) _
  have hon := tracks_keyword hR "on" "ON".toList (by decide) (by decide)
    (wordEnds_space ("UPDATE".toList ++ (' ' :: (t.text ++ s))))
  have hupdate : Tracks R (keyword "delete" <|> keyword "update") "UPDATE".toList
      (' ' :: (t.text ++ s)) _ :=
    (shuns_of_ledBy hR (ledBy_keyword "delete") "UPDATE".toList (by decide) (by decide)
      (' ' :: (t.text ++ s))).orElse_tracks (tracks_keyword hR "update" "UPDATE".toList (by decide)
        (by decide) (wordEnds_space (t.text ++ s)))
  rw [hshape]
  refine Shuns.orElse (shuns_of_ledBy hR ((ledBy_keyword "match").bind _) "ON".toList (by decide)
    (by decide) _) (hon.shuns_bind fun _ _ => ?_)
  refine shuns_spaced hR (settles_cons hR (by decide) _) (hupdate.shuns_bind fun _ _ => ?_)
  exact shuns_spaced hR htime (haction.bind _)

/-- **What follows a part** is another part or the end of the definition. -/
theorem partEnds_partTexts (hs : DefinitionEnds s) (ps : List Part) :
    PartEnds R (partTexts ps ++ s) where
  stops := by
    cases ps with
    | nil => exact hs.stops
    | cons p ps =>
        rw [partTexts_cons]
        exact ⟨' ', _, rfl, by decide⟩
  noCall := shuns_open hR hs ps _
  noOption := by
    cases ps with
    | nil => exact shuns_of_definitionEnds hR hs ledBy_referenceOption (by decide)
    | cons p ps =>
        rw [partTexts_cons]
        cases p with
        | kept q =>
            refine shuns_part hR ledBy_referenceOption (.kept q) ?_ _
            cases q <;> rfl
        | comment s => exact shuns_part hR ledBy_referenceOption (.comment s) rfl _
        | onUpdate t =>
            exact shuns_spaced hR ((Part.onUpdate t).settles hR _)
              (shuns_referenceOption_onUpdate hR t _)
        | references r => exact shuns_part hR ledBy_referenceOption (.references r) rfl _

/-! ### Strings and times -/

theorem Quoted.settles (q : Quoted) (s : Text) : Settles R (q.text ++ s) := by
  have hquote : isGapStart q.quote = false := by
    rcases q.isQuote with hq | hq <;> rw [hq] <;> decide
  exact settles_cons hR hquote _

omit hR in
/-- No quote stands behind a string. -/
theorem Quoted.head_ne (q : Quoted) (hs : Stops s) : ∀ c ∈ s.head?, c ≠ q.quote := by
  refine hs.head_ne ?_
  rcases q.isQuote with hq | hq <;> rw [hq] <;> decide

theorem tracks_quoted (q : Quoted) (hs : ∀ c ∈ s.head?, c ≠ q.quote) :
    Tracks R quotedString q.text s (· = (q.quote, q.body)) :=
  tracks_quotedString hR q.isQuote q.closed hs

/-- The time of the change is tracked in every form that it is written in. -/
theorem tracks_currentTime (t : TimeName) (hs : PartEnds R s) :
    Tracks R currentTime t.text s fun _ => True := by
  cases t with
  | currentTimestamp =>
      have hword := tracks_keyword hR "current_timestamp" "CURRENT_TIMESTAMP".toList (by decide)
        (by decide) hs.stops.wordEnds
      refine Tracks.orElse (hword.bind_nil fun _ _ => ?_) _
      exact hs.noCall.optional.nil_bind fun _ _ => tracks_pure trivial
  | currentTimestampCall =>
      exact (copies_bare hR (by decide)).tracks fun v _ => ⟨(), currentTime_append v, trivial⟩
  | now =>
      refine (copies_bare hR (by decide)).tracks fun v _ => ⟨(), ?_, trivial⟩
      have hlong : (keyword "current_timestamp").Refuses ("NOW()".toList ++ v) :=
        (ledBy_keyword _).refuses "NOW".toList (by decide) ("()".toList ++ v)
      have hword := keyword_append "now" "NOW".toList (by decide)
        (wordEnds_cons (c := '(') (by decide) (')' :: v))
      refine ((hlong.bind _).orElse_apply _).trans ((bind_of_ok hword _).trans ?_)
      exact (bind_of_ok (gap0_cons (by decide) _) _).trans (emptyCall_append v)

/-! ### Default values -/

omit hR in
theorem isBare_of_isTokenChar {c : Char} (h : isTokenChar c = true) : isBare c = true := by
  simp only [isTokenChar, Bool.or_eq_true, beq_iff_eq] at h
  rcases h with ((h | rfl) | rfl) | rfl
  · exact isBare_of_isWordChar h
  all_goals decide

/-- In a text that stands in for the end of a token, the token ends as well, unless two dashes are
there. -/
theorem isTokenChar_of_stops (hs : Stops s) {y : Text} (hy : R s y)
    (hdash : ∀ c ∈ y.head?, c ≠ '-') : ∀ c ∈ y.head?, isTokenChar c = false := by
  have hends : ∀ c ∈ s.head?, isTokenChar c = false := hs.head (by decide)
  rcases head_or_gap hR hy with h | ⟨-, d, y', rfl, hd⟩
  · exact fun c hc => hends c (h c hc)
  · intro c hc
    cases hc
    cases hc : isTokenChar d with
    | false => rfl
    | true =>
        simp only [isTokenChar, Bool.or_eq_true, beq_iff_eq] at hc
        rcases hc with ((hc | rfl) | rfl) | rfl
        · rw [isGapStart_of_isWordChar hc] at hd; cases hd
        · cases hd
        · cases hd
        · exact absurd rfl (hdash '-' rfl)

/-- **A word that is kept is tracked** where nothing in the second text changes it. -/
theorem tracks_defaultClause_token {raw : Text} (hraw : IsToken raw) (hs : Stops s)
    (hintact : Intact R raw) :
    Tracks R defaultClause ("DEFAULT ".toList ++ raw) s (· = .token raw) := by
  intro u hu
  have hends : ∀ c ∈ s.head?, isTokenChar c = false := hs.head (by decide)
  have hbare : raw.all isBare = true :=
    List.all_eq_true.2 fun c hc => isBare_of_isTokenChar (hraw.chars c hc)
  have hfirst : ∀ c ∈ (raw ++ s).head?, isSpace c = false := by
    obtain ⟨c, t, rfl⟩ := List.exists_cons_of_ne_nil hraw.ne_nil
    intro d hd
    cases hd
    have hc := isBare_of_isTokenChar (hraw.chars c List.mem_cons_self)
    simp only [isBare, Bool.and_eq_true, Bool.not_eq_true'] at hc
    exact hc.1
  rw [List.append_assoc] at hu
  -- the second text has the word `DEFAULT`, a gap and the same value
  obtain ⟨v, rfl, hv⟩ := copies_bare hR (t := "DEFAULT".toList) (s := ' ' :: (raw ++ s)) (by decide)
    u hu
  obtain ⟨g, x, hg, rfl, hx⟩ := hR.spaces (w := [' ']) hv (by decide) (by decide) hfirst
  obtain ⟨y, rfl, hy⟩ := copies_bare hR hbare x hx
  have hnot : ¬ Continues raw y := hintact g s y hg hends hu hy
  have hdash : ∀ c ∈ y.head?, c ≠ '-' := by
    rintro c hc rfl
    cases y with
    | nil => cases hc
    | cons d y => cases hc; exact hnot (.inl ⟨y, rfl⟩)
  have htoken := isTokenChar_of_stops hR hs hy hdash
  have hquote : ∀ c ∈ y.head?, c ≠ singleQuote :=
    head_of_head hR hy (hs.head_ne (by decide)) fun c hc heq => by rw [heq] at hc; cases hc
  have hread := token_append hraw htoken hquote fun htime => hnot (.inr htime)
  have hword := keyword_append "default" "DEFAULT".toList (by decide) (wordEnds_gap hg (raw ++ y))
  refine ⟨.token raw, y, ?_, rfl, hy⟩
  exact (bind_of_ok hword _).trans
    ((bind_of_ok (hg.gap1 (hraw.solid hdash)) _).trans (within_eq_ok_iff.2 hread))

/-- The values of the other kinds end by themselves. -/
theorem tracks_defaultValue {v : SchemaDelta.DefaultValue} (hv : ∀ raw, v ≠ .unclassified raw)
    (hs : Stops s) :
    Tracks R defaultValue (Generator.mysql.default v) s (·.meaning = v) := by
  have hquote := hs.head_ne (q := singleQuote) (by decide)
  have hlast : ∀ u, R s u → ∀ c ∈ u.head?, c ≠ singleQuote :=
    fun u hu => head_of_head hR hu hquote fun c hc heq => by rw [heq] at hc; cases hc
  cases v with
  | text value =>
      refine (copies_string hR (.inl rfl) (Text.splitAtQuote?_escape value (by simp)) hquote).tracks
        fun u hu => ⟨_, defaultValue_text value (hlast u hu), ?_⟩
      rw [DefaultValue.meaning, Text.unescape_escape]
  | bits value =>
      have hlacks : ∀ c, isBit c = false → c ∉ Text.binary value.toNat :=
        fun c hc => Text.not_mem_binary hc value.toNat
      have hdigits : Text.splitAtQuote? singleQuote (Text.binary value.toNat ++ [singleQuote]) =
          some (Text.binary value.toNat, []) :=
        Text.splitAtQuote?_of_lacks (by decide) (hlacks '\\' (by decide))
          (hlacks singleQuote (by decide))
      have hshape : Generator.mysql.default (.bits value) =
          ['b'] ++ (singleQuote :: (Text.binary value.toNat ++ [singleQuote])) := by
        have hdefault : Generator.mysql.default (.bits value) =
            "b'".toList ++ Text.binary value.toNat ++ "'".toList := rfl
        rw [hdefault, List.append_assoc]
        rfl
      have hcopies : Copies R (Generator.mysql.default (.bits value)) s := by
        rw [hshape]
        exact (copies_bare hR (by decide)).append (copies_string hR (.inl rfl) hdigits hquote)
      refine hcopies.tracks fun u _ => ⟨_, defaultValue_bits value u, ?_⟩
      rw [DefaultValue.meaning, bits?_binary]
  | currentTimestamp =>
      exact (copies_bare hR (t := "CURRENT_TIMESTAMP()".toList) (by decide)).tracks fun u _ =>
        ⟨_, defaultValue_currentTimestamp u, rfl⟩
  | unclassified raw => exact absurd rfl (hv raw)

/-- **A default is tracked** where nothing in the second text changes it. -/
theorem tracks_defaultClause {v : SchemaDelta.DefaultValue} (hv : v.WellFormed) (hs : Stops s)
    (hintact : ∀ raw, v = .unclassified raw → Intact R raw) :
    Tracks R defaultClause ("DEFAULT ".toList ++ Generator.mysql.default v) s (·.meaning = v) := by
  by_cases hraw : ∃ raw, v = .unclassified raw
  · obtain ⟨raw, rfl⟩ := hraw
    exact (tracks_defaultClause_token hR hv hs (hintact raw rfl)).mono fun w hw => hw ▸ rfl
  · have hsettles : Settles R (Generator.mysql.default v ++ s) := by
      cases v with
      | text value => exact settles_cons hR (c := singleQuote) (by decide) _
      | bits value => exact settles_cons hR (c := 'b') (by decide) _
      | currentTimestamp => exact settles_cons hR (c := 'C') (by decide) _
      | unclassified raw => exact absurd ⟨raw, rfl⟩ hraw
    have hvalue := tracks_defaultValue hR (fun raw h => hraw ⟨raw, h⟩) hs
    have hword := tracks_keyword hR "default" "DEFAULT".toList (by decide) (by decide)
      (wordEnds_space (Generator.mysql.default v ++ s))
    have hshape : "DEFAULT ".toList ++ Generator.mysql.default v =
        "DEFAULT".toList ++ (' ' :: Generator.mysql.default v) := rfl
    rw [hshape]
    exact Tracks.bind hword fun _ _ => tracks_spaced hR hsettles (hvalue.within _)

/-! ### Qualifiers -/

theorem tracks_spacedWord {name : Text} (hne : name ≠ [])
    (hword : ∀ c ∈ name, isWordChar c = true) (hs : WordEnds s) :
    Tracks R (gap1 *> identifier) (' ' :: name) s (· = name) :=
  tracks_spaced hR (settles_word hR hne hword s) (tracks_bareName hR hne hword hs)

/-- A qualifier that is kept is tracked, with its own meaning. -/
theorem tracks_qualifier {q : SchemaDelta.Qualifier} (hq : q.WellFormed) (hplain : q.Plain)
    (hs : Stops s) (hintact : ∀ raw, q = .default (.unclassified raw) → Intact R raw) :
    Tracks R fieldQualifier (Generator.mysql.qualifier q) s (·.meaning? = some q) := by
  have hled := ledBy_fieldQualifiers
  have hends := hs.wordEnds
  cases q with
  | notNull =>
      have hread := tracks_keywords hR "not null" _ ["NOT".toList, "NULL".toList] _ rfl rfl
        (by decide) hends
      exact tracks_firstOf hR hled 0 rfl "NOT".toList (by decide) (by decide) ⟨" NULL".toList, rfl⟩
        (hread.map fun _ _ => rfl)
  | null =>
      have hread := tracks_keyword hR "null" "NULL".toList (by decide) (by decide) hends
      exact tracks_firstOf hR hled 1 rfl "NULL".toList (by decide) (by decide) ⟨[], rfl⟩
        (hread.map fun _ _ => rfl)
  | primaryKey =>
      have hread := tracks_keywords hR "primary key" _ ["PRIMARY".toList, "KEY".toList] _ rfl rfl
        (by decide) hends
      exact tracks_firstOf hR hled 2 rfl "PRIMARY".toList (by decide) (by decide)
        ⟨" KEY".toList, rfl⟩ (hread.map fun _ _ => rfl)
  | autoIncrement =>
      have hread := tracks_keyword hR "auto_increment" "AUTO_INCREMENT".toList (by decide)
        (by decide) hends
      exact tracks_firstOf hR hled 3 rfl "AUTO_INCREMENT".toList (by decide) (by decide)
        ⟨[], rfl⟩ ((hread.orElse _).map fun _ _ => rfl)
  | characterSet name =>
      have hwords := tracks_keywords hR "character set" _ ["CHARACTER".toList, "SET".toList] _ rfl
        rfl (by decide) (wordEnds_space (name ++ s))
      have hread : Tracks R characterSet ("CHARACTER SET".toList ++ (' ' :: name)) s (· = name) :=
        Tracks.bind (hwords.orElse _) fun _ _ => tracks_spacedWord hR hq hplain hends
      refine tracks_firstOf hR hled 4 rfl "CHARACTER".toList (by decide) (by decide)
        ⟨" SET ".toList ++ name, rfl⟩ (hread.map fun w hw => ?_)
      rw [hw, Qualifier.meaning?, Text.unquote_word hplain]
  | collate name =>
      have hword := tracks_keyword hR "collate" "COLLATE".toList (by decide) (by decide)
        (wordEnds_space (name ++ s))
      have hread : Tracks R collation ("COLLATE".toList ++ (' ' :: name)) s (· = name) :=
        Tracks.bind hword fun _ _ => tracks_spacedWord hR hq hplain hends
      refine tracks_firstOf hR hled 5 rfl "COLLATE".toList (by decide) (by decide)
        ⟨" ".toList ++ name, rfl⟩ (hread.map fun w hw => ?_)
      rw [hw, Qualifier.meaning?, Text.unquote_word hplain]
  | uniqueKey =>
      have hword := tracks_keyword hR "unique" "UNIQUE".toList (by decide) (by decide)
        (wordEnds_space ("KEY".toList ++ s))
      have hread : Tracks R (keyword "unique" *> indexWord?) ("UNIQUE".toList ++ " KEY".toList) s
          fun _ => True :=
        hword.bind fun _ _ => tracks_word? hR (some .key) hends fun h => by cases h
      exact tracks_firstOf hR hled 6 rfl "UNIQUE".toList (by decide) (by decide)
        ⟨" KEY".toList, rfl⟩ (hread.map fun _ _ => rfl)
  | key =>
      exact tracks_firstOf hR hled 7 rfl "KEY".toList (by decide) (by decide) ⟨[], rfl⟩
        ((tracks_word hR .key hends).map fun _ _ => rfl)
  | default value =>
      have hread := tracks_defaultClause hR hq hs fun raw h => hintact raw (congrArg _ h)
      refine tracks_firstOf hR hled 8 rfl "DEFAULT".toList (by decide) (by decide)
        ⟨" ".toList ++ Generator.mysql.default value, rfl⟩ (hread.map fun w hw => ?_)
      rw [Qualifier.meaning?, hw]

/-- **Every part is tracked**, and what is read of it means what is kept of it. -/
theorem tracks_part (p : Part) (hp : ∀ q ∈ p.kept?, q.WellFormed ∧ q.Plain) (hs : PartEnds R s)
    (hintact : ∀ raw, p.kept? = some (.default (.unclassified raw)) → Intact R raw) :
    Tracks R fieldQualifier p.text s (·.meaning? = p.kept?) := by
  have hled := ledBy_fieldQualifiers
  cases p with
  | kept q =>
      obtain ⟨hq, hplain⟩ := hp q rfl
      exact tracks_qualifier hR hq hplain hs.stops fun raw h => hintact raw (congrArg some h)
  | comment t =>
      have hword := tracks_keyword hR "comment" "COMMENT".toList (by decide) (by decide)
        (wordEnds_space (t.text ++ s))
      have hstring := tracks_quoted hR t (t.head_ne hs.stops)
      have hread : Tracks R commentClause ("COMMENT".toList ++ (' ' :: t.text)) s fun _ => True :=
        Tracks.bind hword fun _ _ => tracks_spaced hR (t.settles hR s)
          (hstring.map fun _ _ => trivial)
      exact tracks_firstOf hR hled 9 rfl "COMMENT".toList (by decide) (by decide)
        ⟨" ".toList ++ t.text, rfl⟩ (hread.map fun _ _ => rfl)
  | onUpdate t =>
      have hwords := tracks_keywords hR "on update" _ ["ON".toList, "UPDATE".toList] _ rfl rfl
        (by decide) (wordEnds_space (t.text ++ s))
      have htime : Settles R (t.text ++ s) := by
        cases t <;> exact settles_cons hR (by decide) _
      have hvalue : Tracks R defaultValue t.text s fun _ => True :=
        tracks_firstOf_of_shuns [] _ (by simp)
          ((tracks_currentTime hR t hs).map fun _ _ => trivial)
      have hread : Tracks R onUpdateClause ("ON UPDATE".toList ++ (' ' :: t.text)) s
          fun _ => True :=
        Tracks.bind hwords fun _ _ => tracks_spaced hR htime hvalue
      exact tracks_firstOf hR hled 10 rfl "ON".toList (by decide) (by decide)
        ⟨" UPDATE ".toList ++ t.text, rfl⟩ (hread.map fun _ _ => rfl)
  | references r =>
      have hread := tracks_referenceDefinition hR r hs.stops.wordEnds hs.noOption
      exact tracks_firstOf hR hled 11 rfl "REFERENCES".toList (by decide) (by decide) ⟨_, rfl⟩
        (hread.matched.map fun _ _ => rfl)

/-! ### Types -/

omit hR in
theorem isBare_of_isNumberChar {c : Char} (h : isNumberChar c = true) : isBare c = true := by
  simp only [isNumberChar, Bool.or_eq_true, beq_iff_eq] at h
  rcases h with ((((h | rfl) | rfl) | rfl) | rfl) | rfl
  · have hgap := isGapStart_of_isDigit h
    simp only [isGapStart, Bool.or_eq_false_iff] at hgap
    have hquote : Text.isNameQuote c = false := Text.isNameQuote_of_any (by decide) h
    simp [isBare, hgap.1.1.1, hquote]
  all_goals decide

theorem copies_argument (h : IsArgument t) (hs : Stops s) : Copies R t s := by
  cases h with
  | number hsign hdigits hfraction hexponent =>
      exact copies_bare hR (List.all_eq_true.2 fun c hc =>
        isBare_of_isNumberChar (isNumberChar_of_mem hsign hdigits hfraction hexponent c hc))
  | string hq hbody =>
      refine copies_string hR hq hbody (hs.head_ne ?_)
      rcases hq with rfl | rfl <;> decide
  | word hne hword => exact copies_bare hR (all_isBare_of_word hword)

theorem settles_argument (h : IsArgument t) (s : Text) : Settles R (t ++ s) := by
  cases h with
  | @number sign digits fraction exponent hsign hdigits hfraction hexponent =>
      have hbare : (sign ++ digits ++ fraction ++ exponent).all isBare = true :=
        List.all_eq_true.2 fun c hc =>
          isBare_of_isNumberChar (isNumberChar_of_mem hsign hdigits hfraction hexponent c hc)
      have harg : IsArgument (sign ++ digits ++ fraction ++ exponent) :=
        .number hsign hdigits hfraction hexponent
      -- a sign may be a dash, so that more than the first character counts
      refine ⟨(harg.solid s).isSpace_head, fun u hu => ?_⟩
      obtain ⟨v, rfl, -⟩ := copies_bare hR hbare u hu
      exact harg.solid v
  | @string q body hq hbody =>
      have hgap : isGapStart q = false := by
        rcases hq with rfl | rfl <;> decide
      exact settles_cons hR hgap _
  | word hne hword => exact settles_word hR hne hword s

theorem tracks_typeArg (h : IsArgument t) (hs : ItemEnds s) : Tracks R typeArg t s (· = t) :=
  (copies_argument hR h hs.stops).tracks fun _ hv =>
    ⟨t, typeArg_append h (itemEnds hR hs hv).stops, rfl⟩

/-- **The arguments of a type are tracked** where no parenthesis follows. -/
theorem tracks_typeArgs {args : List Text} (hargs : ∀ a ∈ args, IsArgument a)
    (hs : Shuns R (gap0 *> parenthesized (commaList typeArg)) s) :
    Tracks R (Rule.optional (gap0 *> parenthesized (commaList typeArg))) (Generator.typeArgs args) s
      (·.getD [] = args) := by
  by_cases hne : args = []
  · subst hne
    exact hs.optional.mono fun o ho => ho ▸ rfl
  · have hlist := tracks_commaList hR hne (fun a ha _ => tracks_typeArg hR (hargs a ha))
      (fun a ha => settles_argument hR (hargs a ha)) s
    have hshape : Generator.typeArgs args = columnList args := by
      rw [Generator.typeArgs, if_neg (by simpa using hne)]
      rfl
    rw [hshape]
    refine Tracks.mono (Tracks.optional ((settles_columnList hR args s).gap0.nil_bind
      fun _ _ => hlist)) fun o ho => ?_
    obtain ⟨as, rfl, rfl⟩ := ho
    rfl

theorem TypeWord.settles (w : TypeWord) (s : Text) : Settles R (w.text ++ s) := by
  cases w <;> exact settles_cons hR (by decide) _

theorem tracks_typeQualifier (w : TypeWord) (hs : WordEnds s) :
    Tracks R typeQualifier w.text s fun _ => True := by
  have hled : List.Forall₂ LedBy
      [keyword "unsigned", keyword "signed", keyword "zerofill", keyword "binary"]
      [["unsigned".toList], ["signed".toList], ["zerofill".toList], ["binary".toList]] :=
    .cons (ledBy_keyword _) (.cons (ledBy_keyword _) (.cons (ledBy_keyword _)
      (.cons (ledBy_keyword _) .nil)))
  cases w with
  | unsigned =>
      have hread := tracks_firstOf_keyword hR hled 0 "unsigned" rfl "UNSIGNED".toList (by decide)
        (by decide) hs
      exact hread.mono fun _ _ => trivial
  | signed =>
      have hread := tracks_firstOf_keyword hR hled 1 "signed" rfl "SIGNED".toList (by decide)
        (by decide) hs
      exact hread.mono fun _ _ => trivial
  | zerofill =>
      have hread := tracks_firstOf_keyword hR hled 2 "zerofill" rfl "ZEROFILL".toList (by decide)
        (by decide) hs
      exact hread.mono fun _ _ => trivial
  | binary =>
      have hread := tracks_firstOf_keyword hR hled 3 "binary" rfl "BINARY".toList (by decide)
        (by decide) hs
      exact hread.mono fun _ _ => trivial

/-- No part of a column is taken for a word that belongs to the type. -/
theorem shuns_typeQualifier (hs : DefinitionEnds s) (ps : List Part) :
    Shuns R (gap1 *> typeQualifier) (partTexts ps ++ s) := by
  cases ps with
  | nil => exact shuns_of_definitionEnds hR hs ledBy_typeQualifier (by decide)
  | cons p ps =>
      rw [partTexts_cons]
      refine shuns_part hR ledBy_typeQualifier p ?_ _
      cases p with
      | kept q => cases q <;> rfl
      | comment s => rfl
      | onUpdate t => rfl
      | references r => rfl

/-- **The words that belong to a type are tracked**, in any number. -/
theorem tracks_typeTexts (ws : List TypeWord) (hs : DefinitionEnds s) (ps : List Part) :
    Tracks R (Rule.many (gap1 *> typeQualifier)) (typeTexts ws) (partTexts ps ++ s)
      fun _ => True := by
  have hends : ∀ back : List TypeWord, WordEnds (typeTexts back ++ (partTexts ps ++ s)) := by
    intro back
    cases back with
    | nil => exact (partEnds_partTexts hR hs ps).stops.wordEnds
    | cons w back => exact wordEnds_space _
  refine (tracks_many (Q := fun _ _ => True) _ takes_gap1_seq (shuns_typeQualifier hR hs ps) ws
    fun front w back _ => ?_).mono fun _ _ => trivial
  exact tracks_spaced hR (w.settles hR _) (tracks_typeQualifier hR w (hends back))

/-! ### Columns -/

omit hR in
/-- What is read of the parts means what is kept of them. -/
theorem filterMap_meaning {ps : List Part} {qs : List Source.Qualifier}
    (h : List.Forall₂ (fun p q => q.meaning? = p.kept?) ps qs) :
    qs.filterMap Source.Qualifier.meaning? = ps.filterMap Part.kept? := by
  induction h with
  | nil => rfl
  | cons hq _ ih => rw [List.filterMap_cons, List.filterMap_cons, hq, ih]

/-- **The parts of a column are tracked**, those that are kept and those that are left out. -/
theorem tracks_partTexts (ps : List Part)
    (hps : ∀ q ∈ ps.filterMap Part.kept?, q.WellFormed ∧ q.Plain) (hs : DefinitionEnds s)
    (hintact : ∀ raw, .default (.unclassified raw) ∈ ps.filterMap Part.kept? → Intact R raw) :
    Tracks R (Rule.many (gap1 *> fieldQualifier)) (partTexts ps) s
      (·.filterMap Source.Qualifier.meaning? = ps.filterMap Part.kept?) := by
  refine Tracks.mono (tracks_many _ takes_gap1_seq
    (shuns_of_definitionEnds hR hs ledBy_fieldQualifier (by decide)) ps fun front p back heq => ?_)
    fun _ => filterMap_meaning
  have hmem : ∀ q, p.kept? = some q → q ∈ ps.filterMap Part.kept? :=
    fun q hq => List.mem_filterMap.2 ⟨p, by simp [heq], hq⟩
  exact tracks_spaced hR (p.settles hR _) (tracks_part hR p (fun q hq => hps q (hmem q hq))
    (partEnds_partTexts hR hs back) fun raw h => hintact raw (hmem _ h))

end Decorated

/-- The column that is read where the given one is written: its type goes into upper case and back
again. -/
def Field.reread (f : Field) : Field :=
  { f with type := Text.lowercase (Text.uppercase f.type) }

/-- The columns that can be written without loss, but for the case of the letters of a type. -/
structure Field.Legible (f : Field) : Prop where
  name : backtick ∉ f.name
  type : ∀ c ∈ Text.uppercase f.type, isWordChar c = true
  qualifiers : ∀ q ∈ f.qualifiers, q.Plain

theorem Field.Plain.legible {f : Field} (h : f.Plain) (hf : f.WellFormed) : f.Legible where
  name := h.name
  type := Source.isWordChar_uppercase hf h
  qualifiers := h.qualifiers

theorem Field.Plain.reread_eq {f : Field} (h : f.Plain) (hf : f.WellFormed) : f.reread = f := by
  rw [reread, Text.lowercase_uppercase h.type fun c hc => (hf.type_lower c hc (h.type c hc)).2]

namespace Decorated

open Rule Lexeme Source Exchange SchemaDelta.Alignment

variable {R : Text → Text → Prop} (hR : Alignment R) {s : Text}

include hR

omit hR in
theorem wordEnds_typeArgs (hs : WordEnds s) (args : List Text) (ws : List TypeWord) :
    WordEnds (Generator.typeArgs args ++ (typeTexts ws ++ s)) := by
  cases args with
  | cons a as => exact wordEnds_cons (by decide) _
  | nil =>
      cases ws with
      | nil => exact hs
      | cons w ws => exact wordEnds_space _

/-- What follows a type without arguments is no list of them. -/
theorem shuns_typeArgs_typeTexts (hs : DefinitionEnds s) (ws : List TypeWord) (ps : List Part) :
    Shuns R (gap0 *> parenthesized (commaList typeArg)) (typeTexts ws ++ (partTexts ps ++ s)) := by
  cases ws with
  | nil => exact shuns_open hR hs ps _
  | cons w ws =>
      have hspace : Tracks R gap0 [' '] (w.text ++ (typeTexts ws ++ (partTexts ps ++ s))) _ :=
        tracks_gap0 hR (by decide) (w.settles hR _)
      have hchar : Shuns R (char '(') (w.text ++ (typeTexts ws ++ (partTexts ps ++ s))) := by
        cases w <;> exact shuns_char hR (by decide) (by decide) _
      have hshape : typeTexts (w :: ws) ++ (partTexts ps ++ s) =
          [' '] ++ (w.text ++ (typeTexts ws ++ (partTexts ps ++ s))) := by
        simp [typeTexts]
      rw [hshape]
      exact hspace.shuns_bind fun _ _ => hchar.bind _

/-- **A column is tracked**, and what is read of it means the column without what is left out. -/
theorem tracks_fieldDefinition (c : Column) (hc : c.field.WellFormed) (hlegible : c.field.Legible)
    (hs : DefinitionEnds s)
    (hintact : ∀ raw, .default (.unclassified raw) ∈ c.field.qualifiers → Intact R raw) :
    Tracks R fieldDefinition c.text s (·.meaning = c.field.reread) := by
  have hparts : ∀ q ∈ c.parts.filterMap Part.kept?, q.WellFormed ∧ q.Plain := by
    rw [c.parts_kept]
    exact fun q hq => ⟨hc.qualifiers q hq, hlegible.qualifiers q hq⟩
  have htype : Text.uppercase c.field.type ≠ [] := Text.uppercase_ne_nil hc.type_ne_nil
  have hstops := (partEnds_partTexts hR hs c.parts).stops
  have hends : WordEnds (Generator.typeArgs c.field.args ++
      (typeTexts c.typeWords ++ partTexts c.parts) ++ s) := by
    rw [List.append_assoc, List.append_assoc]
    exact wordEnds_typeArgs hstops.wordEnds c.field.args c.typeWords
  have hopen : Shuns R (gap0 *> parenthesized (commaList typeArg))
      (typeTexts c.typeWords ++ partTexts c.parts ++ s) := by
    rw [List.append_assoc]
    exact shuns_typeArgs_typeTexts hR hs c.typeWords c.parts
  refine Tracks.bind (tracks_name hR hc.name_ne_nil hlegible.name _) fun name hname => ?_
  refine Tracks.bind (f := [' ']) (tracks_gap1 hR (by decide) (by decide) ?_) fun _ _ => ?_
  · exact (List.append_assoc _ _ s).symm ▸ settles_word hR htype hlegible.type _
  refine Tracks.bind (tracks_bareIdentifier hR htype hlegible.type hends) fun type htype => ?_
  refine Tracks.bind (tracks_typeArgs hR hc.args hopen) fun args hargs => ?_
  refine Tracks.bind (tracks_typeTexts hR c.typeWords hs c.parts) fun ws _ => ?_
  refine (tracks_partTexts hR c.parts hparts hs fun raw hraw =>
    hintact raw (c.parts_kept ▸ hraw)).bind_nil fun qs hqs => ?_
  refine tracks_pure ?_
  have htrim : c.field.args.map Text.trim = c.field.args := by
    calc c.field.args.map Text.trim = c.field.args.map id :=
          List.map_congr_left fun a ha => (hc.args a ha).trim
      _ = c.field.args := List.map_id _
  rw [Field.meaning, hname, htype, hargs, hqs, c.parts_kept, htrim,
    Text.unquote_quotedWith hc.name_ne_nil hlegible.name]
  rfl

end Decorated

end SchemaDelta
