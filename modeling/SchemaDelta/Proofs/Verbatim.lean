/-
**Text that is kept as it is written.**

A statement other than the creation of a table is not looked into: it is passed over piece by piece
up to its semicolon.  A quoted text is one piece, so that a semicolon inside of it does not count.
What is written in such a statement is passed over as it was meant to be, provided that no name has
the quote around it or a backslash in it, and no word the two dashes that open a comment.

Main definitions:

* `SchemaDelta.Lexeme.Reaches` — the pieces of a text end where another text begins;
* `SchemaDelta.Lexeme.Calm` — nothing in front extends the piece before it;
* `SchemaDelta.Lexeme.Passes` — a text is passed over in front of any calm text;
* `SchemaDelta.Field.Quiet`, `SchemaDelta.Index.Quiet` — columns and indices that are passed over.

Main results:

* `SchemaDelta.Lexeme.Passes.append`, `SchemaDelta.Lexeme.Passes.joinWith` — texts are passed over
  one after the other;
* `SchemaDelta.Lexeme.passes_quotedWith`, `SchemaDelta.Source.passes_default` — names and defaults;
* `SchemaDelta.Source.passes_field`, `SchemaDelta.Source.passes_index` — **columns and indices are
  passed over**.
-/

import SchemaDelta.Proofs.Reading

set_option relaxedAutoImplicit false
set_option autoImplicit false

namespace SchemaDelta

/-! ### Quoted texts -/

/-- A text without the quote and without backslashes ends at the quote behind it. -/
theorem Text.splitAtQuote?_of_not_mem {q : Char} {t rest : Text} (hq : q ≠ '\\') (hlacks : q ∉ t)
    (hslash : '\\' ∉ t) (hrest : ∀ c ∈ rest.head?, c ≠ q) :
    splitAtQuote? q (t ++ q :: rest) = some (t, rest) := by
  induction t with
  | nil => exact splitAtQuote?_close hq hrest
  | cons c t ih =>
      simp only [List.mem_cons, not_or] at hlacks hslash
      rw [List.cons_append,
        splitAtQuote?_cons_of_ne (Ne.symm hslash.1) (Ne.symm hlacks.1) (by simp),
        ih hlacks.2 hslash.2]
      rfl

namespace Lexeme

open Rule

variable {s t u rest last : Text}

/-! ### Pieces -/

/-- The pieces of the text `s` end where the text `last` begins. -/
def Reaches (s last : Text) : Prop :=
  ∃ us, Rule.many (firstOf verbatimPieces) s = .ok us last

theorem Reaches.step {v : Unit} (h : firstOf verbatimPieces s = .ok v rest)
    (hlt : rest.length < s.length) (hrest : Reaches rest last) : Reaches s last := by
  obtain ⟨us, hus⟩ := hrest
  exact ⟨v :: us, many_eq_cons h hlt hus⟩

/-- A character that opens no comment and is no quote is left to the last two kinds of piece. -/
theorem firstOf_verbatimPieces (c : Char) (t : Text) (hcomment : comment.Refuses (c :: t))
    (hquote : Text.isNameQuote c = false) :
    firstOf verbatimPieces (c :: t) =
      firstOf [Functor.discard (span1 isPlain), Functor.discard (oneOf "-/")] (c :: t) := by
  simp only [Text.isNameQuote, Bool.or_eq_false_iff, beq_eq_false_iff_ne] at hquote
  have hsingle := (refuses_quotedBody (q := singleQuote) hquote.1.2 t).discard
  have hdouble := (refuses_quotedBody (q := doubleQuote) hquote.2 t).discard
  have hback := (refuses_quotedBody (q := backtick) hquote.1.1 t).discard
  rw [verbatimPieces, firstOf_cons_cons, hcomment.discard.orElse_apply, firstOf_cons_cons,
    hsingle.orElse_apply, firstOf_cons_cons, hdouble.orElse_apply, firstOf_cons_cons,
    hback.orElse_apply]

theorem refuses_comment_of_isPlain {c : Char} (h : isPlain c = true) (t : Text) :
    comment.Refuses (c :: t) := by
  refine refuses_comment ?_ ?_ ?_
  · rintro rfl
    exact absurd h (by decide)
  · rintro rfl
    exact absurd h (by decide)
  · rintro rfl
    exact absurd h (by decide)

/-- Plain characters are read in one go. -/
theorem verbatimPiece_plain {c : Char} (h : isPlain c = true) (t : Text) :
    firstOf verbatimPieces (c :: t) = .ok () (t.dropWhile isPlain) := by
  have hspan : Functor.discard (span1 isPlain) (c :: t) = .ok () (t.dropWhile isPlain) := by
    rw [discard_apply, span1, if_pos h]
  rw [firstOf_verbatimPieces c t (refuses_comment_of_isPlain h t) 
    (Text.isNameQuote_of_any (by decide) h)]
  exact orElse_of_ok hspan _

/-- It does not matter how many plain characters are read in one go. -/
theorem Reaches.dropWhile (h : Reaches s last) : Reaches (s.dropWhile isPlain) last := by
  -- the first piece of the text takes the very characters that are dropped
  cases s with
  | nil => exact h
  | cons c t =>
      by_cases hc : isPlain c = true
      · obtain ⟨us, hus⟩ := h
        have hlt : (t.dropWhile isPlain).length < (c :: t).length :=
          Nat.lt_succ_of_le (List.dropWhile_sublist isPlain).length_le
        obtain ⟨us', -, hus'⟩ := exists_of_many_eq_ok (verbatimPiece_plain hc t) hlt hus
        rw [List.dropWhile_cons_of_pos hc]
        exact ⟨us', hus'⟩
      · rwa [List.dropWhile_cons_of_neg hc]

theorem Reaches.plain (ht : t.all isPlain = true) (h : Reaches s last) : Reaches (t ++ s) last := by
  induction t with
  | nil => exact h
  | cons c t ih =>
      rw [List.all_cons, Bool.and_eq_true] at ht
      have htail := ih ht.2
      refine Reaches.step (verbatimPiece_plain ht.1 (t ++ s)) ?_ htail.dropWhile
      exact Nat.lt_succ_of_le (List.dropWhile_sublist isPlain).length_le

/-- A quoted text is one piece. -/
theorem Reaches.quoted {q : Char} {body : Text} (hq : Text.isNameQuote q = true)
    (hsplit : Text.splitAtQuote? q (body ++ q :: s) = some (body, s)) (h : Reaches s last) :
    Reaches (q :: (body ++ [q]) ++ s) last := by
  have hread : Functor.discard (quotedBody q) (q :: (body ++ [q]) ++ s) = .ok () s := by
    rw [discard_apply, quotedBody_append hsplit]
  have hlt : s.length < (q :: (body ++ [q]) ++ s).length := by
    simp only [List.length_append, List.length_cons]
    omega
  have hcomment : comment.Refuses (q :: (body ++ [q]) ++ s) := by
    simp only [Text.isNameQuote, Bool.or_eq_true, beq_iff_eq] at hq
    rcases hq with (rfl | rfl) | rfl <;> exact refuses_comment_of_head (by decide) _
  have hother : ∀ {c : Char}, q ≠ c → (Functor.discard (quotedBody c)).Refuses
      (q :: (body ++ [q]) ++ s) := fun hne => (refuses_quotedBody hne _).discard
  refine Reaches.step (v := ()) ?_ hlt h
  rw [verbatimPieces, firstOf_cons_cons, hcomment.discard.orElse_apply, firstOf_cons_cons]
  simp only [Text.isNameQuote, Bool.or_eq_true, beq_iff_eq] at hq
  rcases hq with (rfl | rfl) | rfl
  · rw [(hother (c := singleQuote) (by decide)).orElse_apply, firstOf_cons_cons,
      (hother (c := doubleQuote) (by decide)).orElse_apply, firstOf_cons_cons]
    exact orElse_of_ok hread _
  · exact orElse_of_ok hread _
  · rw [(hother (c := singleQuote) (by decide)).orElse_apply, firstOf_cons_cons]
    exact orElse_of_ok hread _

/-- A dash that no other dash follows opens no comment. -/
theorem Reaches.dash (hs : ∀ c ∈ s.head?, c ≠ '-') (h : Reaches s last) :
    Reaches ('-' :: s) last := by
  have hcomment : comment.Refuses ('-' :: s) :=
    refuses_comment (by decide) (by decide) fun _ => hs
  have hplain : (Functor.discard (span1 isPlain)).Refuses ('-' :: s) :=
    (refuses_span1 (by decide)).discard
  refine Reaches.step (v := ()) ?_ (Nat.lt_succ_self _) h
  rw [firstOf_verbatimPieces '-' s hcomment (by decide), firstOf_cons_cons, hplain.orElse_apply]
  rfl

/-- A semicolon is no piece. -/
theorem refuses_verbatimPieces (rest : Text) : (firstOf verbatimPieces).Refuses (';' :: rest) := by
  have hcomment : comment.Refuses (';' :: rest) := refuses_comment_of_head (by decide) rest
  have hplain : (Functor.discard (span1 isPlain)).Refuses (';' :: rest) :=
    (refuses_span1 (by decide)).discard
  have hdash : (Functor.discard (oneOf "-/")).Refuses (';' :: rest) :=
    (refuses_satisfy (by decide)).discard
  obtain ⟨why, hlast⟩ := hplain.orElse hdash
  exact ⟨why, (firstOf_verbatimPieces ';' rest hcomment (by decide)).trans hlast⟩

/-- The pieces end at a semicolon. -/
theorem reaches_semicolon (rest : Text) : Reaches (';' :: rest) (';' :: rest) :=
  ⟨[], (refuses_verbatimPieces rest).many⟩

/-! ### Texts that are passed over -/

/-- Neither a quote nor a dash is in front, so that nothing extends the piece before it. -/
def Calm (s : Text) : Prop :=
  ∀ c ∈ s.head?, Text.isNameQuote c = false ∧ c ≠ '-'

theorem calm_nil : Calm [] :=
  fun c hc => by cases hc

theorem calm_cons {c : Char} (hquote : Text.isNameQuote c = false) (hdash : c ≠ '-') (t : Text) :
    Calm (c :: t) := by
  intro d hd
  cases hd
  exact ⟨hquote, hdash⟩

theorem Calm.append (ht : Calm t) (hs : Calm s) : Calm (t ++ s) := by
  cases t with
  | nil => exact hs
  | cons c t => exact ht

theorem Calm.head_ne {q : Char} (h : Calm s) (hq : Text.isNameQuote q = true) :
    ∀ c ∈ s.head?, c ≠ q := by
  rintro c hc rfl
  rw [(h c hc).1] at hq
  cases hq

/-- A text is passed over in front of any calm text. -/
def Passes (t : Text) : Prop :=
  ∀ s last, Calm s → Reaches s last → Reaches (t ++ s) last

theorem passes_nil : Passes [] :=
  fun _ _ _ h => h

theorem passes_plain (ht : t.all isPlain = true) : Passes t :=
  fun _ _ _ h => h.plain ht

theorem Passes.append (ht : Passes t) (hu : Passes u) (hcalm : Calm u) : Passes (t ++ u) := by
  intro s last hs h
  rw [List.append_assoc]
  exact ht (u ++ s) last (hcalm.append hs) (hu s last hs h)

/-- After plain characters anything may follow. -/
theorem Passes.plain_append (ht : t.all isPlain = true) (hu : Passes u) : Passes (t ++ u) := by
  intro s last hs h
  rw [List.append_assoc]
  exact (hu s last hs h).plain ht

theorem Passes.plain_cons {c : Char} (hc : isPlain c = true) (hu : Passes u) : Passes (c :: u) :=
  Passes.plain_append (t := [c]) (by simpa using hc) hu

/-- Texts that are passed over are so with a separator between them that starts with a comma. -/
theorem Passes.joinWith {sep : Text} {ts : List Text} (hsep : (',' :: sep).all isPlain = true)
    (hts : ∀ t ∈ ts, Passes t) : Passes (Text.joinWith (',' :: sep) ts) := by
  cases ts with
  | nil => exact passes_nil
  | cons t ts =>
      rw [Text.joinWith_cons]
      -- the part before a comma is never extended by it
      have htail : Passes (ts.flatMap fun u => ',' :: sep ++ u) ∧
          Calm (ts.flatMap fun u => ',' :: sep ++ u) := by
        induction ts with
        | nil => exact ⟨passes_nil, calm_nil⟩
        | cons u us ih =>
            obtain ⟨hpasses, hcalm⟩ := ih fun v hv => by
              rcases List.mem_cons.1 hv with rfl | hv
              · exact hts v List.mem_cons_self
              · exact hts v (List.mem_cons_of_mem _ (List.mem_cons_of_mem u hv))
            have hu : Passes u := hts u (List.mem_cons_of_mem t List.mem_cons_self)
            refine ⟨?_, calm_cons (by decide) (by decide) _⟩
            rw [List.flatMap_cons]
            exact (Passes.plain_append hsep hu).append hpasses hcalm
      exact (hts t List.mem_cons_self).append htail.1 htail.2

/-- A name is passed over between two quotes. -/
theorem passes_quotedWith (hlacks : backtick ∉ t) (hslash : '\\' ∉ t) :
    Passes (Text.quotedWith backtick t) := by
  intro s last hs h
  rw [Text.quotedWith_of_not_mem hlacks]
  refine h.quoted (by decide) (Text.splitAtQuote?_of_not_mem (by decide) hlacks hslash ?_)
  exact hs.head_ne (by decide)

/-- The characters that end a statement or may open a quoted text or a comment. -/
def marks : List Char :=
  [';', singleQuote, doubleQuote, backtick, '#', '-', '/']

/-- Characters of a kind that has no marks are plain. -/
theorem isPlain_of_any {f : Char → Bool} (hf : marks.any f = false) {c : Char} (h : f c = true) :
    isPlain c = true := by
  have hc : c ∉ marks := fun hc => List.any_eq_false.1 hf c hc h
  simpa [isPlain, marks, and_assoc] using hc

theorem all_isPlain {f : Char → Bool} (hf : marks.any f = false) (h : ∀ c ∈ t, f c = true) :
    t.all isPlain = true :=
  List.all_eq_true.2 fun c hc => isPlain_of_any hf (h c hc)

end Lexeme

/-! ### Columns and indices that are passed over -/

/-- The columns that are passed over in a statement that is not looked into. -/
structure Field.Quiet (f : Field) : Prop where
  name : '\\' ∉ f.name
  qualifiers : ∀ q ∈ f.qualifiers, q.LacksDashes

/-- The indices that are passed over in a statement that is not looked into. -/
structure Index.Quiet (i : Index) : Prop where
  name : ∀ n ∈ i.name, '\\' ∉ n
  columns : ∀ c ∈ i.columns, '\\' ∉ c

instance : DecidablePred Field.Quiet := fun f =>
  decidable_of_iff ('\\' ∉ f.name ∧ ∀ q ∈ f.qualifiers, q.LacksDashes)
    ⟨fun h => ⟨h.1, h.2⟩, fun h => ⟨h.name, h.qualifiers⟩⟩

instance : DecidablePred Index.Quiet := fun i =>
  decidable_of_iff ((∀ n ∈ i.name, '\\' ∉ n) ∧ ∀ c ∈ i.columns, '\\' ∉ c)
    ⟨fun h => ⟨h.1, h.2⟩, fun h => ⟨h.name, h.columns⟩⟩

namespace Source

open Rule Lexeme

variable {s t last : Text}

/-- A sign in front of anything but a dash opens no comment. -/
theorem Reaches.sign (hsign : IsSign t) (hs : ∀ c ∈ s.head?, c ≠ '-') (h : Reaches s last) :
    Reaches (t ++ s) last := by
  rcases hsign with rfl | rfl | rfl
  · exact h
  · exact h.plain (t := ['+']) (by decide)
  · exact h.dash hs

/-- An argument of a type is passed over. -/
theorem passes_argument (h : IsArgument t) : Passes t := by
  intro s last hs hreach
  cases h with
  | @number sign digits fraction exponent hsign hdigits hfraction hexponent =>
      have hexp : Reaches (exponent ++ s) last := by
        rcases hexponent with rfl | ⟨e, sign', ds, rfl, he, hsign', hds⟩
        · exact hreach
        · have hdigits' : Reaches (ds ++ s) last :=
            hreach.plain (all_isPlain (by decide) hds.2)
          have hsigned := Reaches.sign hsign' (fun c hc => (hds.head s c hc).2) hdigits'
          have he : [e].all isPlain = true := by
            rcases he with rfl | rfl <;> decide
          rw [List.cons_append, List.append_assoc]
          exact hsigned.plain he
      have hfrac : Reaches (fraction ++ (exponent ++ s)) last := by
        rcases hfraction with rfl | ⟨ds, rfl, hds⟩
        · exact hexp
        · exact (hexp.plain (all_isPlain (by decide) hds)).plain (t := ['.']) (by decide)
      have hwhole : Reaches (digits ++ (fraction ++ (exponent ++ s))) last :=
        hfrac.plain (all_isPlain (by decide) hdigits.2)
      rw [List.append_assoc, List.append_assoc, List.append_assoc]
      exact Reaches.sign hsign (fun c hc => (hdigits.head _ c hc).2) hwhole
  | @string q body hq hbody =>
      have hquote : Text.isNameQuote q = true := by
        rcases hq with rfl | rfl <;> decide
      exact hreach.quoted hquote (Text.splitAtQuote?_append hbody (hs.head_ne hquote))
  | word _ hword _ => exact hreach.plain (all_isPlain (by decide) hword)

/-- A word that is kept is passed over if it has no two dashes. -/
theorem Reaches.token (hchars : ∀ c ∈ t, isTokenChar c = true) (hdashes : ¬ ['-', '-'] <:+: t)
    (hs : ∀ c ∈ s.head?, c ≠ '-') (h : Reaches s last) : Reaches (t ++ s) last := by
  -- every dash in the word is followed by something else, at its end by what stands behind it
  induction t with
  | nil => exact h
  | cons c t ih =>
      have htail : Reaches (t ++ s) last :=
        ih (fun d hd => hchars d (List.mem_cons_of_mem c hd))
          fun hinside => hdashes (hinside.trans (List.suffix_cons c t).isInfix)
      by_cases hdash : c = '-'
      · subst hdash
        refine htail.dash fun d hd => ?_
        cases t with
        | nil => exact hs d hd
        | cons e t =>
            cases hd
            rintro rfl
            exact hdashes ⟨[], t, rfl⟩
      · have hc := hchars c List.mem_cons_self
        have hplain : isPlain c = true := by
          simp only [isTokenChar, Bool.or_eq_true, beq_iff_eq] at hc
          rcases hc with ((hword | rfl) | rfl) | rfl
          · exact isPlain_of_any (by decide) hword
          · decide
          · decide
          · exact absurd rfl hdash
        exact htail.plain (t := [c]) (by simpa using hplain)

/-- A default is passed over. -/
theorem passes_default {v : SchemaDelta.DefaultValue} (hv : v.WellFormed)
    (hdashes : (SchemaDelta.Qualifier.default v).LacksDashes) :
    Passes (Generator.mysql.default v) := by
  intro s last hs h
  have hquote := hs.head_ne (q := singleQuote) (by decide)
  cases v with
  | text value => exact h.quoted (by decide) (Text.splitAtQuote?_escape value hquote)
  | bits value =>
      have hlacks : ∀ c, isBit c = false → c ∉ Text.binary value.toNat :=
        fun c hc => Text.not_mem_binary hc value.toNat
      have hsplit := Text.splitAtQuote?_of_not_mem (by decide) (hlacks singleQuote (by decide))
        (hlacks '\\' (by decide)) hquote
      have hbody := h.quoted (q := singleQuote) (by decide) hsplit
      have hshape : Generator.mysql.bitLiteral value ++ s =
          ['b'] ++ (singleQuote :: (Text.binary value.toNat ++ [singleQuote]) ++ s) := by
        simp [Generator.mysql]
      change Reaches (Generator.mysql.bitLiteral value ++ s) last
      rw [hshape]
      exact hbody.plain (by decide)
  | currentTimestamp => exact h.plain (t := "CURRENT_TIMESTAMP()".toList) (by decide)
  | unclassified raw => exact Reaches.token hv.chars hdashes (fun c hc => (hs c hc).2) h

/-- A qualifier is passed over. -/
theorem passes_qualifier {q : SchemaDelta.Qualifier} (hq : q.WellFormed) (hplain : q.Plain)
    (hdashes : q.LacksDashes) : Passes (Generator.mysql.qualifier q) := by
  cases q with
  | notNull => exact passes_plain (t := "NOT NULL".toList) (by decide)
  | null => exact passes_plain (t := "NULL".toList) (by decide)
  | primaryKey => exact passes_plain (t := "PRIMARY KEY".toList) (by decide)
  | autoIncrement => exact passes_plain (t := "AUTO_INCREMENT".toList) (by decide)
  | characterSet name =>
      exact Passes.plain_append (t := "CHARACTER SET ".toList) (by decide)
        (passes_plain (all_isPlain (by decide) hplain))
  | collate name =>
      exact Passes.plain_append (t := "COLLATE ".toList) (by decide)
        (passes_plain (all_isPlain (by decide) hplain))
  | uniqueKey => exact passes_plain (t := "UNIQUE KEY".toList) (by decide)
  | key => exact passes_plain (t := "KEY".toList) (by decide)
  | default value =>
      exact Passes.plain_append (t := "DEFAULT ".toList) (by decide) (passes_default hq hdashes)

/-- The qualifiers of a column are passed over, each with its space. -/
theorem passes_qualifiers {qs : List SchemaDelta.Qualifier} (hqs : ∀ q ∈ qs, q.WellFormed)
    (hplain : ∀ q ∈ qs, q.Plain) (hdashes : ∀ q ∈ qs, q.LacksDashes) :
    Passes (Qualifier.texts qs) ∧ Calm (Qualifier.texts qs) := by
  induction qs with
  | nil => exact ⟨passes_nil, calm_nil⟩
  | cons q qs ih =>
      have hq := passes_qualifier (hqs q List.mem_cons_self) (hplain q List.mem_cons_self)
        (hdashes q List.mem_cons_self)
      obtain ⟨hpasses, hcalm⟩ := ih (fun r hr => hqs r (List.mem_cons_of_mem q hr))
        (fun r hr => hplain r (List.mem_cons_of_mem q hr))
        fun r hr => hdashes r (List.mem_cons_of_mem q hr)
      refine ⟨?_, calm_cons (by decide) (by decide) _⟩
      rw [Qualifier.texts, List.flatMap_cons]
      exact (hq.plain_cons (by decide)).append hpasses hcalm

theorem passes_typeArgs {args : List Text} (hargs : ∀ a ∈ args, IsArgument a) :
    Passes (Generator.typeArgs args) ∧ Calm (Generator.typeArgs args) := by
  cases args with
  | nil => exact ⟨passes_nil, calm_nil⟩
  | cons a as =>
      have hlist : Passes (Text.joinWith [',', ' '] (a :: as)) :=
        Passes.joinWith (by decide) fun t ht => passes_argument (hargs t ht)
      have hclose : Passes (Text.joinWith [',', ' '] (a :: as) ++ [')']) :=
        hlist.append (passes_plain (by decide)) (calm_cons (by decide) (by decide) [])
      exact ⟨hclose.plain_cons (by decide), calm_cons (by decide) (by decide) _⟩

/-- **A column is passed over.** -/
theorem passes_field {f : SchemaDelta.Field} (hf : f.WellFormed) (hplain : f.Plain)
    (hquiet : f.Quiet) : Passes (Generator.mysql.field f) := by
  have hword := isWordChar_uppercase hf hplain
  obtain ⟨hqualifiers, hcalm⟩ := passes_qualifiers hf.qualifiers hplain.qualifiers hquiet.qualifiers
  obtain ⟨hargs, hcalm'⟩ := passes_typeArgs hf.args
  have hname := passes_quotedWith hplain.name hquiet.name
  have htype : Passes (' ' :: Text.uppercase f.type) :=
    (passes_plain (all_isPlain (by decide) hword)).plain_cons (by decide)
  have hspace : Calm (' ' :: Text.uppercase f.type) := calm_cons (by decide) (by decide) _
  exact ((hname.append htype hspace).append hargs hcalm').append hqualifiers hcalm

/-- **An index is passed over.** -/
theorem passes_index {i : SchemaDelta.Index} (hplain : i.Plain) (hquiet : i.Quiet) :
    Passes (Generator.mysql.index i) := by
  have hwords : Passes i.words.toList := by
    rw [Index.words]
    repeat' split
    all_goals exact passes_plain (by decide)
  have hname : Passes (Generator.mysql.spacedName i.name) ∧
      Calm (Generator.mysql.spacedName i.name) := by
    cases hn : i.name with
    | none => exact ⟨passes_nil, calm_nil⟩
    | some n =>
        have hquoted := passes_quotedWith (hplain.name n hn) (hquiet.name n hn)
        exact ⟨hquoted.plain_cons (by decide), calm_cons (by decide) (by decide) _⟩
  have hmethod : Passes (Generator.usingMethod i.method) ∧
      Calm (Generator.usingMethod i.method) := by
    cases i.method with
    | none => exact ⟨passes_nil, calm_nil⟩
    | some m => cases m <;> exact ⟨passes_plain (by decide), calm_cons (by decide) (by decide) _⟩
  have hlist : Passes (Text.joinWith [',', ' '] (columnTexts i.columns)) := by
    refine Passes.joinWith (by decide) fun t ht => ?_
    obtain ⟨c, hc, rfl⟩ := List.mem_map.1 ht
    exact passes_quotedWith (hplain.columns c hc) (hquiet.columns c hc)
  have hparens : Passes
      (" (".toList ++ (Text.joinWith [',', ' '] (columnTexts i.columns) ++ [')'])) :=
    Passes.plain_append (by decide)
      (hlist.append (passes_plain (by decide)) (calm_cons (by decide) (by decide) []))
  have hcalm : Calm (" (".toList ++ (Text.joinWith [',', ' '] (columnTexts i.columns) ++ [')'])) :=
    calm_cons (c := ' ') (by decide) (by decide) _
  have hshape : Generator.mysql.index i = i.words.toList ++ (Generator.mysql.spacedName i.name ++
      (Generator.usingMethod i.method ++ (" (".toList ++
        (Text.joinWith [',', ' '] (columnTexts i.columns) ++ [')'])))) := by
    simp only [Generator.index, List.append_assoc]
    rfl
  rw [hshape]
  exact hwords.append (hname.1.append (hmethod.1.append hparens hcalm) (hmethod.2.append hcalm))
    (hname.2.append (hmethod.2.append hcalm))

end Source

end SchemaDelta
