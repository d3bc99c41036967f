/-
**Indices in all their forms.**

An index may be written in many ways that mean the same: a constraint with a symbol or without one
in front of a primary key or a unique index, one of two words behind the kind or none, a storage
method on either side of the columns with the word that announces it or without, lengths and
directions of the columns, and spaces where none are needed.  All of them are read, and what is
meant is told by the kind, the name, the columns and the last storage method.

Only one form has to be kept apart.  Where an index has no name, a storage method in front of the
columns is taken for one, unless it is announced or the index is a primary key.

Main definitions:

* `SchemaDelta.Decorated.Opening`, `SchemaDelta.Decorated.KeyPart`,
  `SchemaDelta.Decorated.WrittenMethod` — the parts of an index as they are written;
* `SchemaDelta.Decorated.WrittenIndex` — an index as it is written, and the index that it means;
* `SchemaDelta.Decorated.EntryEnds` — a comma or a parenthesis may end a definition.

Main results:

* `SchemaDelta.Decorated.tracks_keyPart` — lengths and directions are left out;
* `SchemaDelta.Decorated.tracks_indexBody`, `SchemaDelta.Decorated.tracks_opening` — an index is read
  from its parts;
* `SchemaDelta.Decorated.tracks_indexDefinition` — **a generated index is tracked**;
* `SchemaDelta.Decorated.indexDefinition_written` — **an index is read in each of its forms**, up to
  its end and as what it means.
-/

import SchemaDelta.Proofs.Decorated.Key

set_option relaxedAutoImplicit false
set_option autoImplicit false

namespace SchemaDelta.Decorated

open Rule Lexeme Source Exchange SchemaDelta.Alignment

/-! ### What is written -/

/-- A name that may stand between backticks. -/
structure QuotableName where
  text : Text
  ne_nil : text ≠ []
  lacks : backtick ∉ text

def QuotableName.quoted (n : QuotableName) : Text :=
  Text.quotedWith backtick n.text

/-- The direction of a column of an index. -/
inductive Direction where
  | asc
  | desc

def Direction.word : Direction → Text
  | .asc => "ASC".toList
  | .desc => "DESC".toList

/-- A column of an index, with a length and a direction or without them. -/
structure KeyPart where
  column : QuotableName
  length : Option Text
  direction : Option Direction
  length_digits : ∀ ds ∈ length, ds ≠ [] ∧ ∀ c ∈ ds, c.isDigit = true

/-- A storage method, with the word that announces it or without. -/
structure WrittenMethod where
  method : IndexMethod
  announced : Bool

/-- Either word for an index. -/
inductive IndexWord where
  | key
  | index

def IndexWord.text : IndexWord → Text
  | .key => "KEY".toList
  | .index => "INDEX".toList

/-- What an index starts with.  A constraint has a symbol or none. -/
inductive Opening where
  | primary (constraint : Option (Option QuotableName))
  | unique (constraint : Option (Option QuotableName)) (word : Option IndexWord)
  | fulltext (word : Option IndexWord)
  | spatial (word : Option IndexWord)
  | plain (word : IndexWord)

def Opening.kind : Opening → IndexKind
  | .primary _ => .primary
  | .unique _ _ => .unique
  | .fulltext _ => .fulltext
  | .spatial _ => .spatial
  | .plain _ => .plain

/-- Where spaces stand that may be left out. -/
structure Spacing where
  beforeColumns : Bool
  insideParentheses : Bool
  beforeComma : Bool
  behindComma : Bool
  beforeLength : Bool

/-- An index as it is written.  A primary key has no name, and where an index that may have one has
none, a storage method in front of the columns is announced. -/
structure WrittenIndex where
  opening : Opening
  name : Option QuotableName
  before : Option WrittenMethod
  columns : List KeyPart
  after : Option WrittenMethod
  spacing : Spacing
  primary_unnamed : opening.kind = .primary → name = none
  before_announced :
    opening.kind = .primary ∨ name.isSome = true ∨ ∀ m ∈ before, m.announced = true
  columns_ne_nil : columns ≠ []

/-- A space, or none. -/
def space : Bool → Text
  | true => [' ']
  | false => []

/-- What stands in parentheses, with a space inside of them or without. -/
def Spacing.parentheses (p : Spacing) (t : Text) : Text :=
  '(' :: (space p.insideParentheses ++ (t ++ (space p.insideParentheses ++ [')'])))

def lengthText (p : Spacing) : Option Text → Text
  | none => []
  | some digits => space p.beforeLength ++ p.parentheses digits

def directionText : Option Direction → Text
  | none => []
  | some d => ' ' :: d.word

def KeyPart.text (p : Spacing) (k : KeyPart) : Text :=
  k.column.quoted ++ (lengthText p k.length ++ directionText k.direction)

/-- The columns of an index in parentheses. -/
def partsText (p : Spacing) (parts : List KeyPart) : Text :=
  p.parentheses (Text.joinWith (space p.beforeComma ++ ',' :: space p.behindComma)
    (parts.map (KeyPart.text p)))

def WrittenMethod.text (m : WrittenMethod) : Text :=
  (if m.announced then "USING ".toList else []) ++ m.method.word.toList

/-- A storage method with the space in front of it, if there is one. -/
def methodText : Option WrittenMethod → Text
  | none => []
  | some m => ' ' :: m.text

/-- The word behind the kind of an index with the space in front of it, if there is one. -/
def wordText : Option IndexWord → Text
  | none => []
  | some w => ' ' :: w.text

/-- The word `CONSTRAINT` with its symbol, up to the kind of the index. -/
def symbolText (constraint : Option (Option QuotableName)) : Text :=
  constraintText (constraint.map (·.map QuotableName.text))

def Opening.text : Opening → Text
  | .primary constraint => symbolText constraint ++ "PRIMARY KEY".toList
  | .unique constraint word => symbolText constraint ++ ("UNIQUE".toList ++ wordText word)
  | .fulltext word => "FULLTEXT".toList ++ wordText word
  | .spatial word => "SPATIAL".toList ++ wordText word
  | .plain word => word.text

/-- What follows the words of an index: its name, its columns, and a storage method on either side
of them. -/
def bodyOf (name : Option Text) (before : Option WrittenMethod) (spaced : Bool) (columns : Text)
    (after : Option WrittenMethod) : Text :=
  Generator.mysql.spacedName name ++ (methodText before ++ (space spaced ++
    (columns ++ methodText after)))

namespace WrittenIndex

def bodyText (i : WrittenIndex) : Text :=
  bodyOf (i.name.map QuotableName.text) i.before i.spacing.beforeColumns
    (partsText i.spacing i.columns) i.after

def text (i : WrittenIndex) : Text :=
  i.opening.text ++ i.bodyText

/-- The index that is meant.  A storage method behind the columns wins over one in front. -/
def index (i : WrittenIndex) : SchemaDelta.Index where
  columns := i.columns.map (·.column.text)
  name := i.name.map (·.text)
  method := (i.after.map (·.method)).or (i.before.map (·.method))
  primary := i.opening.kind == .primary
  unique := i.opening.kind == .unique
  fulltext := i.opening.kind == .fulltext
  spatial := i.opening.kind == .spatial

end WrittenIndex

/-! ### Where a definition ends -/

/-- White space, and then a comma or a closing parenthesis. -/
def EntryEnds (s : Text) : Prop :=
  ∃ w t, s = w ++ t ∧ w.all isSpace = true ∧ ItemEnds t

theorem all_isSpace_space (b : Bool) : (space b).all isSpace = true := by
  cases b <;> rfl

variable {R : Text → Text → Prop} (hR : Alignment R) {s t : Text}

theorem EntryEnds.wordEnds (hs : EntryEnds s) : WordEnds s := by
  obtain ⟨w, _, rfl, hw, c, t, rfl, hc⟩ := hs
  cases w with
  | nil => rcases hc with rfl | rfl <;> exact wordEnds_cons (by decide) t
  | cons d w =>
      rw [List.all_cons, Bool.and_eq_true] at hw
      exact wordEnds_cons (isWordChar_of_isSpace hw.1) _

include hR

/-- Nothing that may follow after a gap stands in front of a comma or a parenthesis. -/
theorem EntryEnds.shuns {α : Type} {p : Rule α} {ws : List Text} (hs : EntryEnds s)
    (hled : p.LedBy ws)
    (hws : ∀ c ∈ [',', ')'], ∀ w ∈ ws, Text.agreesWith [c] w = false) :
    Shuns R (gap1 *> p) s := by
  obtain ⟨w, _, rfl, hw, c, t, rfl, hc⟩ := hs
  have hmem : c ∈ [',', ')'] := by simpa using hc
  have hgap : isGapStart c = false := by rcases hc with rfl | rfl <;> decide
  have hsettles := settles_cons hR hgap t
  cases w with
  | nil => exact hsettles.shuns_gap1 _
  | cons d w =>
      exact Tracks.shuns_bind (tracks_gap1 hR (List.cons_ne_nil d w) hw hsettles) fun _ _ =>
        shuns_of_ledBy_cons hR hled (hsettles.head c rfl) (hws c hmem) t

/-- Behind a gap no parenthesis is read where something else stands. -/
theorem shuns_parenthesized {α : Type} {inner : Rule α} {w : Text} {c : Char}
    (hw : w.all isSpace = true) (hc : isGapStart c = false) (hne : c ≠ '(') (s : Text) :
    Shuns R (gap0 *> parenthesized inner) (w ++ c :: s) := by
  have hsettles := settles_cons hR hc s
  exact (tracks_gap0 hR hw hsettles).shuns_bind fun _ _ =>
    (shuns_char hR (hsettles.head c rfl) hne s).bind _

/-- What is refused in front of a parenthesis is so with a gap in front of both. -/
theorem shuns_space_open {α : Type} {p : Rule α} (b : Bool) (h : Shuns R p ('(' :: s)) :
    Shuns R (gap1 *> p) (space b ++ '(' :: s) := by
  have hsettles : Settles R ('(' :: s) := settles_cons hR (by decide) s
  cases b with
  | true => exact shuns_spaced hR hsettles h
  | false => exact hsettles.shuns_gap1 _

/-! ### Columns -/

theorem tracks_digits {digits w : Text} (hne : digits ≠ [])
    (hdigits : ∀ c ∈ digits, c.isDigit = true) (hw : w.all isSpace = true) :
    Tracks R digits1 digits (w ++ ')' :: s) fun _ => True := by
  have hbare : digits.all isBare = true := by
    refine all_isBare_of_word fun c hc => ?_
    exact isWordChar_of_isDigit (hdigits c hc)
  have hgap : ∀ c, isGapStart c = true → c.isDigit = false := by
    intro c hc
    cases hdigit : c.isDigit with
    | false => rfl
    | true =>
        rw [isGapStart_of_isDigit hdigit] at hc
        cases hc
  have hhead : ∀ c ∈ (w ++ ')' :: s).head?, c.isDigit = false := by
    intro c hc
    cases w with
    | nil => cases hc; decide
    | cons d w =>
        cases hc
        rw [List.all_cons, Bool.and_eq_true] at hw
        exact hgap c (isGapStart_of_isSpace hw.1)
  refine (copies_bare hR hbare).tracks fun v hv => ⟨digits, ?_, trivial⟩
  exact span1_append hne hdigits (head_of_head hR hv hhead hgap)

theorem tracks_length (p : Spacing) {length : Option Text}
    (hlength : ∀ ds ∈ length, ds ≠ [] ∧ ∀ c ∈ ds, c.isDigit = true)
    (hs : Shuns R (gap0 *> parenthesized digits1) s) :
    Tracks R (Rule.optional (gap0 *> parenthesized digits1)) (lengthText p length) s
      fun _ => True := by
  cases length with
  | none => exact hs.optional.mono fun _ _ => trivial
  | some digits =>
      obtain ⟨hne, hdigits⟩ := hlength digits rfl
      have hinside := all_isSpace_space p.insideParentheses
      have hsettles : Settles R (digits ++ (space p.insideParentheses ++ ')' :: s)) :=
        settles_word hR hne (fun c hc => isWordChar_of_isDigit (hdigits c hc)) _
      have hread : Tracks R (parenthesized digits1) (p.parentheses digits) s fun _ => True :=
        tracks_parenthesized hR hinside hinside hsettles (tracks_digits hR hne hdigits hinside)
      refine (Tracks.optional (P := fun _ => True) ?_).mono fun _ _ => trivial
      exact (tracks_gap0 hR (all_isSpace_space _) (settles_cons hR (by decide) _)).bind
        fun _ _ => hread

theorem tracks_direction (direction : Option Direction) (hs : EntryEnds s) :
    Tracks R (Rule.optional (gap1 *> (keyword "asc" <|> keyword "desc"))) (directionText direction)
      s fun _ => True := by
  have hled : (keyword "asc" <|> keyword "desc").LedBy ["asc".toList, "desc".toList] :=
    (ledBy_keyword "asc").orElse (ledBy_keyword "desc")
  cases direction with
  | none => exact (hs.shuns hR hled (by decide)).optional.mono fun _ _ => trivial
  | some d =>
      have hread : Tracks R (keyword "asc" <|> keyword "desc") d.word s fun _ => True := by
        cases d with
        | asc =>
            have hasc := tracks_keyword hR "asc" "ASC".toList (by decide) (by decide) hs.wordEnds
            exact (hasc.mono fun _ _ => trivial).orElse _
        | desc =>
            have hdesc := tracks_keyword hR "desc" "DESC".toList (by decide) (by decide) hs.wordEnds
            have hasc := shuns_of_ledBy hR (ledBy_keyword "asc") "DESC".toList (by decide)
              (by decide) s
            exact hasc.orElse_tracks (hdesc.mono fun _ _ => trivial)
      have hsettles : Settles R (d.word ++ s) := by
        cases d <;> exact settles_cons hR (by decide) _
      exact (tracks_spaced hR hsettles hread).optional.mono fun _ _ => trivial

/-- **The length and the direction of a column are left out.** -/
theorem tracks_keyPart (p : Spacing) (k : KeyPart) (hs : EntryEnds s) :
    Tracks R indexColumn (k.text p) s (k.column.quoted = ·) := by
  have hlength : Shuns R (gap0 *> parenthesized digits1) (directionText k.direction ++ s) := by
    cases k.direction with
    | none =>
        obtain ⟨w, _, rfl, hw, c, t, rfl, hc⟩ := hs
        rcases hc with rfl | rfl <;> exact shuns_parenthesized hR hw (by decide) (by decide) t
    | some d =>
        cases d <;> exact shuns_parenthesized hR (w := [' ']) (by decide) (by decide) (by decide) _
  refine Tracks.bind (tracks_name hR k.column.ne_nil k.column.lacks _) fun name hname => ?_
  refine (tracks_length hR p k.length_digits hlength).bind fun _ _ => ?_
  exact (tracks_direction hR k.direction hs).bind_nil fun _ _ => tracks_pure hname.symm

theorem tracks_parts (p : Spacing) {parts : List KeyPart} (hne : parts ≠ []) (s : Text) :
    Tracks R indexColumns (partsText p parts) s (· = parts.map (·.column.quoted)) := by
  have hlist := tracks_parenthesizedList hR (KeyPart.text p)
    (Q := fun k a => k.column.quoted = a)
    (all_isSpace_space p.insideParentheses) (all_isSpace_space p.beforeComma)
    (all_isSpace_space p.behindComma) (all_isSpace_space p.insideParentheses) hne
    (fun k _ t => tracks_keyPart hR p k ⟨_, _, rfl, all_isSpace_space _, ',', t, rfl, .inl rfl⟩)
    (fun k _ t => tracks_keyPart hR p k ⟨_, _, rfl, all_isSpace_space _, ')', t, rfl, .inr rfl⟩)
    (fun k _ t => by
      rw [KeyPart.text, List.append_assoc]
      exact settles_quotedWith hR _ _) s
  refine hlist.mono fun names hnames => ?_
  have heq : List.Forall₂ Eq (parts.map (·.column.quoted)) names :=
    List.forall₂_map_left_iff.2 hnames
  exact (List.forall₂_eq_eq_eq ▸ heq).symm

/-! ### Storage methods -/

/-- The storage methods are told by their names. -/
theorem tracks_methodName (m : IndexMethod) (hs : WordEnds s) :
    Tracks R (firstOf methodNames) m.word.toList s (· = m) := by
  cases m with
  | btree =>
      have hread := tracks_keyword hR "btree" "BTREE".toList (by decide) (by decide) hs
      exact tracks_firstOf hR ledBy_methodNames 0 rfl "BTREE".toList (by decide) (by decide)
        ⟨[], rfl⟩ (hread.map fun _ _ => rfl)
  | hash =>
      have hread := tracks_keyword hR "hash" "HASH".toList (by decide) (by decide) hs
      exact tracks_firstOf hR ledBy_methodNames 1 rfl "HASH".toList (by decide) (by decide)
        ⟨[], rfl⟩ (hread.map fun _ _ => rfl)
  | rtree =>
      have hread := tracks_keyword hR "rtree" "RTREE".toList (by decide) (by decide) hs
      exact tracks_firstOf hR ledBy_methodNames 2 rfl "RTREE".toList (by decide) (by decide)
        ⟨[], rfl⟩ (hread.map fun _ _ => rfl)

theorem tracks_indexType (m : IndexMethod) (hs : WordEnds s) :
    Tracks R indexType ("USING".toList ++ (' ' :: m.word.toList)) s (· = m) := by
  have husing := tracks_keyword hR "using" "USING".toList (by decide) (by decide)
    (wordEnds_space (m.word.toList ++ s))
  have hword : Settles R (m.word.toList ++ s) := by
    cases m <;> exact settles_cons hR (by decide) _
  have hlead : Tracks R (Rule.optional (keyword "using" *> gap1)) ("USING".toList ++ [' '])
      (m.word.toList ++ s) fun _ => True :=
    (Tracks.optional (P := fun _ => True) (Tracks.bind husing fun _ _ =>
      tracks_gap1 hR (by decide) (by decide) hword)).mono fun _ _ => trivial
  have hshape : "USING".toList ++ (' ' :: m.word.toList) =
      ("USING".toList ++ [' ']) ++ m.word.toList := by simp
  rw [hshape]
  exact hlead.bind fun _ _ => tracks_methodName hR m hs

theorem tracks_writtenMethod (m : WrittenMethod) (hs : WordEnds s) :
    Tracks R indexType m.text s (· = m.method) := by
  obtain ⟨method, announced⟩ := m
  cases announced with
  | true => exact tracks_indexType hR method hs
  | false =>
      have husing : Shuns R (keyword "using" *> gap1) (method.word.toList ++ s) := by
        refine Shuns.bind ?_ _
        cases method <;> exact shuns_of_ledBy hR (ledBy_keyword "using") _ (by decide) (by decide) s
      exact husing.optional.nil_bind fun _ _ => tracks_methodName hR method hs

theorem tracks_method (m : Option WrittenMethod) (hs : WordEnds s)
    (hnone : Shuns R (gap1 *> indexType) s) :
    Tracks R (Rule.optional (gap1 *> indexType)) (methodText m) s (· = m.map (·.method)) := by
  cases m with
  | none => exact hnone.optional
  | some m =>
      have hsettles : Settles R (m.text ++ s) := by
        obtain ⟨method, announced⟩ := m
        cases announced with
        | true => exact settles_cons hR (c := 'U') (by decide) _
        | false => cases method <;> exact settles_cons hR (by decide) _
      refine (tracks_spaced hR hsettles (tracks_writtenMethod hR m hs)).optional.mono fun o ho => ?_
      obtain ⟨a, rfl, rfl⟩ := ho
      rfl

/-! ### What follows the words of an index -/

omit hR in
theorem wordEnds_space_open (b : Bool) (s : Text) : WordEnds (space b ++ '(' :: s) := by
  cases b with
  | true => exact wordEnds_space _
  | false => exact wordEnds_cons (by decide) s

/-- A storage method that is announced is not taken for a name. -/
theorem shuns_indexName {before : Option WrittenMethod} (h : ∀ m ∈ before, m.announced = true)
    (b : Bool) (s : Text) :
    Shuns R (gap1 *> indexName) (methodText before ++ (space b ++ '(' :: s)) := by
  cases before with
  | none => exact shuns_space_open hR b (shuns_indexName_open hR s)
  | some m =>
      obtain ⟨method, announced⟩ := m
      obtain rfl : announced = true := h _ rfl
      exact shuns_indexName_using hR (method.word.toList ++ (space b ++ '(' :: s))

section Body

variable (name : Option Text) (before : Option WrittenMethod) (b : Bool) {list : Text}
  (hlist : ∃ t, list = '(' :: t) (after : Option WrittenMethod) (s : Text)

include hlist

omit hR in
theorem wordEnds_bodyOf : WordEnds (bodyOf name before b list after ++ s) := by
  obtain ⟨t, rfl⟩ := hlist
  rw [bodyOf]
  cases name with
  | some n => exact wordEnds_space _
  | none =>
      cases before with
      | some m => exact wordEnds_space _
      | none =>
          simp only [List.append_assoc]
          exact wordEnds_space_open _ _

/-- What follows the words of an index is no further word for one. -/
theorem shuns_indexWord_bodyOf :
    Shuns R (gap1 *> indexWord) (bodyOf name before b list after ++ s) := by
  have hled : indexWord.LedBy ["key".toList, "index".toList] :=
    (ledBy_keyword "key").orElse (ledBy_keyword "index")
  obtain ⟨t, rfl⟩ := hlist
  rw [bodyOf]
  cases name with
  | some n =>
      exact shuns_spaced hR (settles_cons hR (c := backtick) (by decide) _)
        (shuns_of_ledBy_cons hR hled (by decide) (by decide) _)
  | none =>
      cases before with
      | some m =>
          obtain ⟨method, announced⟩ := m
          cases announced with
          | true =>
              exact shuns_spaced hR (settles_cons hR (c := 'U') (by decide) _)
                (shuns_of_ledBy_cons hR hled (by decide) (by decide) _)
          | false =>
              cases method <;> exact shuns_spaced hR (settles_cons hR (by decide) _)
                (shuns_of_ledBy_cons hR hled (by decide) (by decide) _)
      | none =>
          simp only [List.append_assoc]
          exact shuns_space_open hR _ (shuns_of_ledBy_cons hR hled (by decide) (by decide) _)

variable {name before b after s}

/-- **What follows the words of an index is tracked.** -/
theorem tracks_indexBody (kind : IndexKind) {named : Bool} {columns : List Text}
    (hunnamed : named = false → name = none)
    (hannounced : named = true → name = none → ∀ m ∈ before, m.announced = true)
    (hname : ∀ n ∈ name, n ≠ [] ∧ backtick ∉ n)
    (hcolumns : ∀ s, Tracks R indexColumns list s (· = columns)) (hs : WordEnds s)
    (hstop : Shuns R (gap1 *> indexType) s) :
    Tracks R (indexBody kind named) (bodyOf name before b list after) s
      (· = { kind, name := name.map (Text.quotedWith backtick), before := before.map (·.method),
             columns, after := after.map (·.method) }) := by
  obtain ⟨t, rfl⟩ := hlist
  have hread : Tracks R (optionalName named) (Generator.mysql.spacedName name)
      (methodText before ++ (space b ++ ('(' :: t ++ methodText after)) ++ s)
      (· = name.map (Text.quotedWith backtick)) := by
    cases named with
    | false =>
        rw [hunnamed rfl]
        exact tracks_pure rfl
    | true =>
        refine tracks_spacedName hR hname fun hnone => ?_
        rw [List.append_assoc, List.append_assoc]
        exact shuns_indexName hR (hannounced rfl hnone) b _
  have hbefore : Tracks R (Rule.optional (gap1 *> indexType)) (methodText before)
      (space b ++ ('(' :: t ++ methodText after) ++ s) (· = before.map (·.method)) := by
    rw [List.append_assoc]
    refine tracks_method hR before (wordEnds_space_open b _) (shuns_space_open hR b ?_)
    exact shuns_of_ledBy_cons hR ledBy_indexType (by decide) (by decide) _
  have hafter := tracks_method hR after hs hstop
  rw [indexBody_eq, bodyOf]
  refine Tracks.bind hread fun o ho => Tracks.bind hbefore fun o' ho' => ?_
  refine Tracks.bind (tracks_gap0 hR (all_isSpace_space b) (settles_cons hR (by decide) _))
    fun _ _ => Tracks.bind (hcolumns _) fun cs hcs => ?_
  refine hafter.bind_nil fun o'' ho'' => tracks_pure ?_
  rw [ho, ho', hcs, ho'']

end Body

omit hR in
theorem QuotableName.unquote_quotedWith (n : QuotableName) :
    Text.unquote (Text.quotedWith backtick n.text) = n.text :=
  Text.unquote_quotedWith n.ne_nil n.lacks

/-- **What follows the words of an index is read as what is meant.** -/
theorem tracks_body (i : WrittenIndex) {named : Bool}
    (hnamed : named = false ↔ i.opening.kind = .primary) (hs : EntryEnds s) :
    Tracks R (indexBody i.opening.kind named) i.bodyText s fun j => j.meaning = i.index := by
  have hquotable : ∀ n ∈ i.name.map QuotableName.text, n ≠ [] ∧ backtick ∉ n := by
    intro n hn
    obtain ⟨m, -, rfl⟩ := Option.map_eq_some_iff.1 hn
    exact ⟨m.ne_nil, m.lacks⟩
  have hunnamed : named = false → i.name.map QuotableName.text = none :=
    fun h => by rw [i.primary_unnamed (hnamed.1 h), Option.map_none]
  have hannounced : named = true → i.name.map QuotableName.text = none →
      ∀ m ∈ i.before, m.announced = true := by
    intro htrue hnone
    rcases i.before_announced with hprimary | hsome | hannounced
    · rw [hnamed.2 hprimary] at htrue
      cases htrue
    · rw [Option.map_eq_none_iff.1 hnone] at hsome
      cases hsome
    · exact hannounced
  refine (tracks_indexBody hR ⟨_, rfl⟩ i.opening.kind hunnamed hannounced hquotable
    (tracks_parts hR i.spacing i.columns_ne_nil) hs.wordEnds
    (hs.shuns hR ledBy_indexType (by decide))).mono fun j hj => ?_
  subst hj
  simp [Index.meaning, WrittenIndex.index, QuotableName.quoted, Function.comp_def,
    QuotableName.unquote_quotedWith]

/-! ### The words of an index -/

theorem tracks_word (w : IndexWord) (hs : WordEnds s) :
    Tracks R indexWord w.text s fun _ => True := by
  cases w with
  | key =>
      have hread := tracks_keyword hR "key" "KEY".toList (by decide) (by decide) hs
      exact (hread.mono fun _ _ => trivial).orElse _
  | index =>
      have hread := tracks_keyword hR "index" "INDEX".toList (by decide) (by decide) hs
      have hkey := shuns_of_ledBy hR (ledBy_keyword "key") "INDEX".toList (by decide) (by decide) s
      exact hkey.orElse_tracks (hread.mono fun _ _ => trivial)

/-- A word for an index that may be left out is tracked, where none can follow in its place. -/
theorem tracks_word? (word : Option IndexWord) (hs : WordEnds s)
    (hnone : word = none → Shuns R (gap1 *> indexWord) s) :
    Tracks R indexWord? (wordText word) s fun _ => True := by
  cases word with
  | none => exact (hnone rfl).optional.mono fun _ _ => trivial
  | some w =>
      have hsettles : Settles R (w.text ++ s) := by cases w <;> exact settles_cons hR (by decide) _
      exact (tracks_spaced hR hsettles (tracks_word hR w hs)).optional.mono fun _ _ => trivial

/-- The word `CONSTRAINT` is left out in front of the words of an index, with its symbol or without
one. -/
theorem tracks_symbolText (constraint : Option (Option QuotableName)) {word : String} (n : Nat)
    (hn : [keyword "primary", keyword "unique", keyword "foreign"][n]? = some (keyword word))
    (lead : Text) (hword : IsPhraseWord lead word.toList)
    (hlead : ∀ ws ∈ [["primary".toList], ["unique".toList], ["foreign".toList]].take n, ∀ w ∈ ws,
      lead.agreesWith w = false)
    (hstart : ∀ w ∈ ["constraint".toList], lead.agreesWith w = false) (hs : WordEnds s) :
    Tracks R (Rule.optional constraintStart) (symbolText constraint) (lead ++ s) fun _ => True := by
  refine tracks_constraintText hR (fun symbol hsymbol n hn => ?_) (hword.settles hR s)
    (shuns_of_ledBy hR ledBy_constraintStart lead hword.bare hstart s)
    (shuns_constraintSymbol hR n hn lead hword hlead hs)
  obtain ⟨o, -, rfl⟩ := Option.map_eq_some_iff.1 hsymbol
  obtain ⟨m, -, rfl⟩ := Option.map_eq_some_iff.1 hn
  exact ⟨m.ne_nil, m.lacks⟩

section Opening

variable {body : Text} {P : Source.Index → Prop}

theorem tracks_primary (constraint : Option (Option QuotableName))
    (hbody : Tracks R (indexBody .primary false) body s P) (hends : WordEnds (body ++ s)) :
    Tracks R indexDefinition (symbolText constraint ++ ("PRIMARY KEY".toList ++ body)) s P := by
  have hsymbol : Tracks R (Rule.optional constraintStart) (symbolText constraint)
      ("PRIMARY KEY".toList ++ body ++ s) fun _ => True :=
    tracks_symbolText hR constraint 0 rfl "PRIMARY".toList (by decide) (by decide) (by decide)
      (wordEnds_space ("KEY".toList ++ body ++ s))
  have hwords := tracks_keywords hR "primary key" _ ["PRIMARY".toList, "KEY".toList] _ rfl rfl
    (by decide) hends
  exact tracks_firstOf hR ledBy_indexDefinitions 0 rfl [] rfl (by decide) ⟨_, rfl⟩
    (hsymbol.bind fun _ _ => hwords.bind fun _ _ => hbody)

/-- A primary key may start with a constraint as well, but its words are missing in front of a unique
index. -/
theorem tracks_unique (constraint : Option (Option QuotableName))
    (hbody : Tracks R (indexWord? >>= fun _ => indexBody .unique true) body s P)
    (hends : WordEnds (body ++ s)) :
    Tracks R indexDefinition (symbolText constraint ++ ("UNIQUE".toList ++ body)) s P := by
  have hsymbol : Tracks R (Rule.optional constraintStart) (symbolText constraint)
      ("UNIQUE".toList ++ body ++ s) fun _ => True :=
    tracks_symbolText hR constraint 1 rfl "UNIQUE".toList (by decide) (by decide) (by decide)
      hends
  have hunique := tracks_keyword hR "unique" "UNIQUE".toList (by decide) (by decide) hends
  have hled : LedBy (do let _ ← keywords "primary key"; indexBody .primary false)
      ["primary".toList] := (ledBy_keywords rfl).bind _
  have hprimary : Shuns R primaryDefinition (symbolText constraint ++
      ("UNIQUE".toList ++ body ++ s)) :=
    hsymbol.shuns_bind fun _ _ =>
      shuns_of_ledBy hR hled "UNIQUE".toList (by decide) (by decide) (body ++ s)
  have hread : Tracks R uniqueDefinition (symbolText constraint ++ ("UNIQUE".toList ++ body)) s P :=
    hsymbol.bind fun _ _ => hunique.bind fun _ _ => hbody
  refine tracks_firstOf_of_shuns [primaryDefinition] _ (fun p hp => ?_) hread
  rw [List.mem_singleton.1 hp, List.append_assoc]
  exact hprimary

/-- **The words that an index starts with tell its kind**, in each of their forms. -/
theorem tracks_opening (o : Opening)
    (hbody : ∀ named, (named = false ↔ o.kind = .primary) →
      Tracks R (indexBody o.kind named) body s P)
    (hends : WordEnds (body ++ s)) (hword : Shuns R (gap1 *> indexWord) (body ++ s)) :
    Tracks R indexDefinition (o.text ++ body) s P := by
  have hwordEnds : ∀ word, WordEnds (wordText word ++ body ++ s) := by
    intro word
    cases word with
    | none => exact hends
    | some w => exact wordEnds_space (w.text ++ body ++ s)
  have htail : o.kind ≠ .primary → ∀ word,
      Tracks R (indexWord? >>= fun _ => indexBody o.kind true) (wordText word ++ body) s P :=
    fun hkind word => (tracks_word? hR word hends fun _ => hword).bind fun _ _ =>
      hbody true (by simp [hkind])
  cases o with
  | primary constraint =>
      have hshape : (Opening.primary constraint).text ++ body =
          symbolText constraint ++ ("PRIMARY KEY".toList ++ body) := List.append_assoc _ _ _
      rw [hshape]
      exact tracks_primary hR constraint (hbody false (by simp [Opening.kind])) hends
  | unique constraint word =>
      have hshape : (Opening.unique constraint word).text ++ body =
          symbolText constraint ++ ("UNIQUE".toList ++ (wordText word ++ body)) := by
        rw [← List.append_assoc _ _ body, ← List.append_assoc _ _ body]
        rfl
      rw [hshape]
      exact tracks_unique hR constraint (htail (by simp [Opening.kind]) word) (hwordEnds word)
  | fulltext word =>
      have hfulltext := tracks_keyword hR "fulltext" "FULLTEXT".toList (by decide) (by decide)
        (hwordEnds word)
      exact tracks_firstOf hR ledBy_indexDefinitions 2 rfl "FULLTEXT".toList (by decide)
        (by decide) ⟨_, rfl⟩ (hfulltext.bind fun _ _ => htail (by simp [Opening.kind]) word)
  | spatial word =>
      have hspatial := tracks_keyword hR "spatial" "SPATIAL".toList (by decide) (by decide)
        (hwordEnds word)
      exact tracks_firstOf hR ledBy_indexDefinitions 3 rfl "SPATIAL".toList (by decide)
        (by decide) ⟨_, rfl⟩ (hspatial.bind fun _ _ => htail (by simp [Opening.kind]) word)
  | plain word =>
      have hplain : Tracks R plainDefinition (word.text ++ body) s P :=
        (tracks_word hR word hends).bind fun _ _ => hbody true (by simp [Opening.kind])
      cases word with
      | key =>
          exact tracks_firstOf hR ledBy_indexDefinitions 4 rfl "KEY".toList (by decide) (by decide)
            ⟨_, rfl⟩ hplain
      | index =>
          exact tracks_firstOf hR ledBy_indexDefinitions 4 rfl "INDEX".toList (by decide)
            (by decide) ⟨_, rfl⟩ hplain

end Opening

/-! ### Indices as they are generated -/

/-- What is written after the words of an index. -/
def indexBodyText (name : Option Text) (method : Option IndexMethod) (columns : List Text) : Text :=
  Generator.mysql.spacedName name ++ (Generator.usingMethod method ++
    ([' '] ++ columnList (columnTexts columns)))

omit hR in
theorem indexBodyText_eq (name : Option Text) (method : Option IndexMethod) (columns : List Text) :
    indexBodyText name method columns =
      bodyOf name (method.map (⟨·, true⟩)) true (columnList (columnTexts columns)) none := by
  have hmethod : methodText (method.map (⟨·, true⟩)) = Generator.usingMethod method := by
    cases method <;> rfl
  rw [indexBodyText, bodyOf, hmethod]
  simp [methodText, space]

/-- What an index of some kind starts with where it is generated. -/
def Opening.generated : IndexKind → Opening
  | .primary => .primary none
  | .unique => .unique none (some .key)
  | .fulltext => .fulltext none
  | .spatial => .spatial none
  | .plain => .plain .key

/-- **A generated index is tracked**, and what is read of it means the index. -/
theorem tracks_indexDefinition {i : SchemaDelta.Index} (hi : i.WellFormed) (hplain : i.Plain)
    (hs : DefinitionEnds s) :
    Tracks R indexDefinition (Generator.mysql.index i) s fun j => j.meaning = i := by
  obtain ⟨kind, hkind, hprimary⟩ := hi.kind
  have hname := hi.name_quotable hplain
  have hcolumn := hi.columns_quotable hplain
  have hisName : ∀ c ∈ columnTexts i.columns, IsName c := by
    intro c hc
    obtain ⟨d, hd, rfl⟩ := List.mem_map.1 hc
    exact .quoted (hcolumn d hd).1 (hcolumn d hd).2
  have hne : columnTexts i.columns ≠ [] := by simpa [columnTexts] using hi.columns_ne_nil
  have hopening : (Opening.generated kind).kind = kind := by cases kind <;> rfl
  have hwords : (Opening.generated kind).text = i.words.toList := by
    rw [words_of_isOfKind hkind]
    cases kind <;> (dsimp only; decide)
  have hbodyText := indexBodyText_eq i.name i.method i.columns
  have hshape : Generator.mysql.index i =
      (Opening.generated kind).text ++ indexBodyText i.name i.method i.columns := by
    simp [hwords, Generator.index, indexBodyText, columnTexts, columnList, Generator.mysql]
  rw [hshape, hbodyText]
  refine tracks_opening hR _ (fun named hnamed => ?_) (wordEnds_bodyOf _ _ _ ⟨_, rfl⟩ _ s)
    (shuns_indexWord_bodyOf hR _ _ _ ⟨_, rfl⟩ _ s)
  rw [hopening] at hnamed ⊢
  refine (tracks_indexBody hR ⟨_, rfl⟩ kind (fun h => hprimary (hnamed.1 h)) ?_ hname
    (tracks_indexColumns hR hne hisName) hs.stops.wordEnds
    (shuns_of_definitionEnds hR hs ledBy_indexType (by decide))).mono fun j hj => ?_
  · intro _ _ m hm
    obtain ⟨a, -, rfl⟩ := Option.map_eq_some_iff.1 hm
    rfl
  · have hmethod : (i.method.map (WrittenMethod.mk · true)).map (·.method) = i.method := by
      rw [Option.map_map]
      exact Option.map_id'
    rw [hj, hmethod]
    exact meaning_of_isOfKind hkind hname hcolumn

/-! ### Reading -/

omit hR in
/-- **An index is read in each of its forms**: all of it is consumed and nothing of what follows, and
what is read means the index with the kind, the name and the columns that are written, and with the
last storage method. -/
theorem indexDefinition_written (i : WrittenIndex) {following : Text} (h : EntryEnds following) :
    ∃ j, indexDefinition (i.text ++ following) = .ok j following ∧ j.meaning = i.index := by
  -- a text is aligned with itself
  have hself : Alignment fun s u => s = u ∧ True :=
    of_eq (fun _ _ => trivial) (fun _ _ => trivial) (fun _ _ _ _ => trivial) fun _ _ _ => trivial
  have hbody : ∀ named, (named = false ↔ i.opening.kind = .primary) → Tracks _
      (indexBody i.opening.kind named) i.bodyText following fun j => j.meaning = i.index :=
    fun named hnamed => tracks_body hself i hnamed h
  have hread := tracks_opening hself i.opening hbody
    (wordEnds_bodyOf _ _ _ ⟨_, rfl⟩ _ following) (shuns_indexWord_bodyOf hself _ _ _ ⟨_, rfl⟩ _ _)
  obtain ⟨j, rest, hj, hmeaning, rfl, -⟩ := hread _ ⟨rfl, trivial⟩
  exact ⟨j, hj, hmeaning⟩

omit hR in
theorem indexDefinition_written_sample :
    EntryEnds ",\n".toList ∧
    ∃ j, indexDefinition ("CONSTRAINT `c` UNIQUE INDEX `n` USING HASH (`a`(10) DESC, `b`) BTREE" ++
        ",\n").toList = .ok j ",\n".toList ∧
      j.meaning = { columns := ["a".toList, "b".toList], name := some "n".toList,
                    method := some .btree, unique := true } := by
  have hends : EntryEnds ",\n".toList := ⟨[], _, rfl, rfl, ',', ['\n'], rfl, .inl rfl⟩
  refine ⟨hends, ?_⟩
  exact indexDefinition_written
    { opening := .unique (some (some ⟨"c".toList, by decide, by decide⟩)) (some .index)
      name := some ⟨"n".toList, by decide, by decide⟩
      before := some ⟨.hash, true⟩
      columns := [⟨⟨"a".toList, by decide, by decide⟩, some "10".toList, some .desc, by decide⟩,
        ⟨⟨"b".toList, by decide, by decide⟩, none, none, by decide⟩]
      after := some ⟨.btree, false⟩
      spacing := ⟨true, false, false, true, false⟩
      primary_unnamed := by decide
      before_announced := by decide
      columns_ne_nil := by decide } hends

end SchemaDelta.Decorated
