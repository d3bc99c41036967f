/-
**What cannot be read back as it was written is not read at all.**

A name is written with its backticks doubled, and it is read up to the first of them: another
backtick is left in front of everything else, and nothing goes on with one.  The same happens where
the letters of a type in upper case are no word.  So a written table is only read if its names lack
backticks and its types are words.

Main definitions:

* `SchemaDelta.Lexeme.Stuck` — what is left leads neither to a comma nor to a parenthesis;
* `SchemaDelta.Item.Legible` — the columns and indices that are read back.

Main results:

* `SchemaDelta.Source.stuck_of_not_legible` — the reading gets stuck behind a definition that is not
  legible;
* `SchemaDelta.Source.legible_of_read` — **a written table that is read is legible**.
-/

import SchemaDelta.Proofs.Decorated.Table
import SchemaDelta.Proofs.Restoration

set_option relaxedAutoImplicit false
set_option autoImplicit false

namespace SchemaDelta

/-- The columns and indices that are read back, but for the case of the letters of a type. -/
def Item.Legible : Item → Prop
  | .inl f => f.Legible
  | .inr i => i.Plain

/-- The character sets and collations of an item are words. -/
def Item.HasPlainQualifiers : Item → Prop
  | .inl f => ∀ q ∈ f.qualifiers, q.Plain
  | .inr _ => True

namespace Lexeme

open Rule

variable {α β : Type} {s t m rest last : Text} {name : Text}

/-! ### Lists that are read up to their end -/

/-- What is left leads neither to a comma nor to a closing parenthesis. -/
def Stuck (m : Text) : Prop :=
  ∃ c t, gap0 m = .ok () (c :: t) ∧ c ≠ ',' ∧ c ≠ ')'

theorem stuck_cons {c : Char} (hc : isGapStart c = false) (hcomma : c ≠ ',') (hclose : c ≠ ')')
    (t : Text) : Stuck (c :: t) :=
  ⟨c, t, gap0_cons hc t, hcomma, hclose⟩

theorem eq_of_many_eq_nil {p : Rule α} (h : p.many s = .ok [] last) : last = s := by
  cases hp : p s with
  | ok a mid =>
      by_cases hlt : mid.length < s.length
      · obtain ⟨as, has, -⟩ := exists_of_many_eq_ok hp hlt h
        cases has
      · rw [many_of_not_lt hp hlt] at h
        cases h
        rfl
  | mismatch why =>
      rw [many_of_mismatch hp] at h
      cases h
      rfl
  | abort why =>
      rw [many, hp] at h
      cases h

section

variable {item : Rule α} (text : β → Text) (tail : List β → Text) {P Good : β → Prop}
  (Fits : Text → Prop)
  (hgood : ∀ b back, P b → Good b → Fits (text b ++ tail back) →
    Fits (tail back) ∧ ∃ a, item (text b ++ tail back) = .ok a (tail back))
  (hbad : ∀ b back a m, P b → ¬ Good b → item (text b ++ tail back) = .ok a m → Stuck m)
  (hcomma : ∀ b back, Fits (tail (b :: back)) →
    Fits (text b ++ tail back) ∧ comma (tail (b :: back)) = .ok () (text b ++ tail back))

include hbad in
/-- Where the items of a list end at the parenthesis, none of them got stuck. -/
theorem good_of_item {b : β} {back : List β} {a : α} {as : List α} {mid after : Text} (hb : P b)
    (hread : item (text b ++ tail back) = .ok a mid)
    (hmany : Rule.many (comma *> item) mid = .ok as m) (hclose : gap0 m = .ok () (')' :: after)) :
    Good b := by
  by_contra hnot
  obtain ⟨c, t, hgap, hc, hc'⟩ := hbad b back a mid hb hnot hread
  have hrefuses : (comma *> item).Refuses mid := (refuses_comma hgap hc).bind _
  rw [hrefuses.many] at hmany
  cases hmany
  rw [hgap] at hclose
  cases hclose
  exact hc' rfl

include hgood hbad hcomma

/-- **A list that is read up to its parenthesis has good items only**, if the reading gets stuck
behind every other one. -/
theorem forall_good_of_sepBy1 {b : β} {bs : List β} (hP : ∀ c ∈ b :: bs, P c)
    (hfits : Fits (text b ++ tail bs)) {as : List α} {after : Text}
    (h : sepBy1 comma item (text b ++ tail bs) = .ok as m)
    (hclose : gap0 m = .ok () (')' :: after)) : ∀ c ∈ b :: bs, Good c := by
  induction bs generalizing b as with
  | nil =>
      obtain ⟨a, mid, hread, h⟩ := bind_eq_ok_iff.1 h
      obtain ⟨as', last, hmany, hpure⟩ := bind_eq_ok_iff.1 h
      cases hpure
      simpa using good_of_item text tail hbad (hP b List.mem_cons_self) hread hmany hclose
  | cons c bs ih =>
      obtain ⟨a, mid, hread, h⟩ := bind_eq_ok_iff.1 h
      obtain ⟨as', last, hmany, hpure⟩ := bind_eq_ok_iff.1 h
      cases hpure
      have hb := good_of_item text tail hbad (hP b List.mem_cons_self) hread hmany hclose
      obtain ⟨hrest, a', hread'⟩ := hgood b (c :: bs) (hP b List.mem_cons_self) hb hfits
      rw [hread'] at hread
      cases hread
      obtain ⟨hnext, hcomma⟩ := hcomma c bs hrest
      -- there is a comma, so that another item was read behind it
      have hne : as' ≠ [] := by
        rintro rfl
        obtain rfl := eq_of_many_eq_nil hmany
        obtain ⟨u, mid, hgap, hchar⟩ := bind_eq_ok_iff.1 hcomma
        obtain ⟨d, mid', hchar, -⟩ := bind_eq_ok_iff.1 hchar
        rw [hclose] at hgap
        cases hgap
        cases (char_eq_ok_iff.1 hchar).1
      obtain ⟨a'', mid, bs', -, hitem, hmany'⟩ := exists_of_many_ne_nil hmany hne
      have hitem := (bind_of_ok hcomma fun _ => item).symm.trans hitem
      have hlist : sepBy1 comma item (text c ++ tail bs) = .ok (a'' :: bs') m :=
        (bind_of_ok hitem _).trans ((bind_of_ok hmany' _).trans rfl)
      have hall := ih (fun d hd => hP d (List.mem_cons_of_mem b hd)) hnext hlist
      exact List.forall_mem_cons.2 ⟨hb, hall⟩

end

/-! ### Names -/

/-- A written name that has a backtick leaves one, or is not read. -/
theorem identifier_quotedWith_of_mem (hmem : backtick ∈ name) (rest : Text) :
    identifier.Refuses (Text.quotedWith backtick name ++ rest) ∨
      ∃ w t, identifier (Text.quotedWith backtick name ++ rest) = .ok w (backtick :: t) := by
  obtain ⟨front, back, rfl, hfront⟩ := List.eq_append_cons_of_mem hmem
  -- the next backtick is the first of the two that stand for the one in the name
  obtain ⟨behind, hshape⟩ : ∃ behind, Text.quotedWith backtick (front ++ backtick :: back) ++ rest =
      backtick :: (front ++ backtick :: backtick :: behind) :=
    ⟨Text.doubled backtick back ++ backtick :: rest, by
      simp [Text.quotedWith, Text.doubled_append, Text.doubled_of_not_mem hfront]⟩
  rw [hshape]
  by_cases hne : front = []
  · -- no name stands between two backticks in a row
    subst hne
    have hempty : (namedBetween backtick).Refuses (backtick :: backtick :: backtick :: behind) :=
      refuses_bind_of_ok (char_cons _ _) ((refuses_span1 (by simp)).bind _)
    have hother : ∀ {q : Char}, backtick ≠ q → ∀ t, (namedBetween q).Refuses (backtick :: t) :=
      fun hq t => (refuses_char hq).bind _
    have hquoted : quotedIdentifier.Refuses (backtick :: backtick :: backtick :: behind) :=
      Refuses.matched (hempty.orElse ((hother (by decide) _).orElse (hother (by decide) _)))
    exact .inl (hquoted.orElse (refuses_span1 (by decide)))
  · have hread := identifier_quotedWith hne hfront (backtick :: behind)
    rw [Text.quotedWith_of_not_mem hfront] at hread
    exact .inr ⟨backtick :: (front ++ [backtick]), behind, by simpa using hread⟩

end Lexeme

namespace Source

open Rule Lexeme

variable {s rest last : Text}

/-! ### Columns -/

/-- The reading gets stuck behind a column that is not legible, if it gets so far. -/
theorem stuck_of_field {f : SchemaDelta.Field} (hf : f.WellFormed)
    (hqualifiers : ∀ q ∈ f.qualifiers, q.Plain) (hnot : ¬ f.Legible) {D : Definition}
    (h : createDefinition (Generator.mysql.field f ++ rest) = .ok D last) : Stuck last := by
  obtain ⟨t, ht⟩ := field_eq_cons f rest
  rw [ht, createDefinition_backtick, ← ht] at h
  obtain ⟨g, hread, -⟩ := map_eq_ok_iff.1 h
  have hread := within_eq_ok_iff.1 hread
  by_cases hname : backtick ∈ f.name
  · rw [field_append] at hread
    rcases identifier_quotedWith_of_mem hname (' ' :: (Text.uppercase f.type ++
      (Generator.typeArgs f.args ++ (Qualifier.texts f.qualifiers ++ rest)))) with hno | ⟨w, t, hok⟩
    · exact absurd hread (hno.bind _).ne_ok
    · have hgap : gap1.Refuses (backtick :: t) := refuses_gap1 (solid_of_head (by decide) t)
      exact absurd hread (refuses_bind_of_ok hok (hgap.bind _)).ne_ok
  · have hword : ¬ ∀ c ∈ Text.uppercase f.type, isWordChar c = true :=
      fun hword => hnot ⟨hname, hword, hqualifiers⟩
    obtain ⟨c, t, rfl, hascii⟩ := exists_of_fieldDefinition_field hf hname hword hread
    refine stuck_cons (isGapStart_of_not_ascii hascii) ?_ ?_ t <;>
      · rintro rfl
        exact hascii (by decide)

/-! ### Indices -/

/-- The reading gets stuck behind the name of a column of an index that has a backtick. -/
theorem stuck_of_indexColumn {name : Text} (hmem : backtick ∈ name) {a : Text}
    (h : indexColumn (Text.quotedWith backtick name ++ rest) = .ok a last) : Stuck last := by
  rcases identifier_quotedWith_of_mem hmem rest with hno | ⟨w, t, hok⟩
  · exact absurd h (hno.bind _).ne_ok
  · have hsolid : Solid (backtick :: t) := solid_of_head (by decide) t
    have hlength : (gap0 *> parenthesized digits1).Refuses (backtick :: t) :=
      refuses_bind_of_ok (gap0_of_solid hsolid) ((refuses_char (by decide)).bind _)
    have hdirection : (gap1 *> (keyword "asc" <|> keyword "desc")).Refuses (backtick :: t) :=
      (refuses_gap1 hsolid).bind _
    rw [indexColumn, bind_of_ok hok, bind_of_ok hlength.optional,
      bind_of_ok hdirection.optional] at h
    cases h
    exact stuck_cons (by decide) (by decide) (by decide) t

/-- The columns of an index that are read lack backticks. -/
theorem not_mem_of_indexColumns {columns : List Text} (hne : columns ≠ [])
    (hcolumn : ∀ c ∈ columns, c ≠ []) {cs : List Text}
    (h : indexColumns ('(' :: (Text.joinWith ", ".toList (columnTexts columns) ++ ')' :: rest)) =
      .ok cs last) : ∀ c ∈ columns, backtick ∉ c := by
  obtain ⟨c, columns, rfl⟩ := List.exists_cons_of_ne_nil hne
  let tail : List Text → Text := fun back =>
    back.flatMap (fun d => [',', ' '] ++ Text.quotedWith backtick d) ++ ')' :: rest
  have hends : ∀ back, ItemEnds (tail back) := by
    intro back
    cases back with
    | nil => exact ⟨')', rest, rfl, .inr rfl⟩
    | cons d back => exact ⟨',', _, rfl, .inl rfl⟩
  have hbad : ∀ d back a m, d ≠ [] → ¬ backtick ∉ d →
      indexColumn (Text.quotedWith backtick d ++ tail back) = .ok a m → Stuck m :=
    fun _ _ _ _ _ hmem h => stuck_of_indexColumn (not_not.1 hmem) h
  -- every text fits
  let fits : Text → Prop := fun _ => True
  have hgood : ∀ d back, d ≠ [] → backtick ∉ d → fits (Text.quotedWith backtick d ++ tail back) →
      fits (tail back) ∧
        ∃ a, indexColumn (Text.quotedWith backtick d ++ tail back) = .ok a (tail back) :=
    fun d back hne hlacks _ => ⟨trivial, _, indexColumn_append hne hlacks (hends back)⟩
  have hcomma : ∀ d back, fits (tail (d :: back)) →
      fits (Text.quotedWith backtick d ++ tail back) ∧
        comma (tail (d :: back)) = .ok () (Text.quotedWith backtick d ++ tail back) := by
    intro d back _
    refine ⟨trivial, ?_⟩
    have hshape : tail (d :: back) =
        ',' :: ([' '] ++ (Text.quotedWith backtick d ++ tail back)) := by
      simp [tail]
    rw [hshape]
    exact comma_append (by decide) (quotedWith_solid d _)
  have hshape : Text.joinWith ", ".toList (columnTexts (c :: columns)) ++ ')' :: rest =
      Text.quotedWith backtick c ++ tail columns := by
    have hsep : ", ".toList = [',', ' '] := rfl
    rw [hsep, columnTexts, List.map_cons, Text.joinWith_cons, List.append_assoc, List.flatMap_map]
  rw [hshape] at h
  obtain ⟨o, s₁, hopen, h⟩ := bind_eq_ok_iff.1 h
  cases hopen
  obtain ⟨u, s₂, hgap, h⟩ := bind_eq_ok_iff.1 h
  rw [gap0_of_solid (quotedWith_solid c _)] at hgap
  cases hgap
  obtain ⟨as, m, hlist, h⟩ := bind_eq_ok_iff.1 h
  obtain ⟨u, s₃, hclose, h⟩ := bind_eq_ok_iff.1 h
  obtain ⟨d, s₄, hchar, -⟩ := bind_eq_ok_iff.1 h
  exact forall_good_of_sepBy1 (Text.quotedWith backtick) tail fits hgood hbad hcomma hcolumn
    trivial hlist ((char_eq_ok_iff.1 hchar).1 ▸ hclose)

/-- Nothing follows the words of an index where a backtick was left over. -/
theorem refuses_indexTail (kind : IndexKind) (name : Option Text) {w : Text}
    (hw : w = [] ∨ w = [' ']) (t : Text) : (indexTail kind name).Refuses (w ++ backtick :: t) := by
  have hsolid : Solid (backtick :: t) := solid_of_head (by decide) t
  have hgap : gap0 (w ++ backtick :: t) = .ok () (backtick :: t) := by
    rcases hw with rfl | rfl <;> exact gap0_append (by decide) hsolid
  have htype : (gap1 *> indexType).Refuses (w ++ backtick :: t) := by
    rcases hw with rfl | rfl
    · exact (refuses_gap1 hsolid).bind _
    · exact refuses_bind_of_ok (gap1_space hsolid) (ledBy_indexType.refuses_cons (by decide) t)
  have hcolumns : indexColumns.Refuses (backtick :: t) := (refuses_char (by decide)).bind _
  exact refuses_bind_of_ok htype.optional (refuses_bind_of_ok hgap (hcolumns.bind _))

/-- The names of an index that is read lack backticks. -/
theorem not_mem_of_indexBody {kind : IndexKind} {named : Bool} {name : Option Text}
    {method : Option IndexMethod} {columns : List Text} (hnamed : named = false → name = none)
    (hname : ∀ n ∈ name, n ≠ []) (hne : columns ≠ []) (hcolumn : ∀ c ∈ columns, c ≠ []) {j : Index}
    (h : indexBody kind named (bodyText name method columns rest) = .ok j last) :
    (∀ n ∈ name, backtick ∉ n) ∧ ∀ c ∈ columns, backtick ∉ c := by
  rw [indexBody_eq] at h
  have hlacks : ∀ n ∈ name, backtick ∉ n := by
    rintro n hn hmem
    rw [Option.mem_def.1 hn] at h hnamed
    cases named with
    | false => cases hnamed rfl
    | true =>
        -- the name is left out or cut off, and a backtick is in front either way
        have husing : (keyword "using").Refuses (Text.quotedWith backtick n ++
            (Generator.usingMethod method ++ columnsText columns rest)) :=
          (ledBy_keyword "using").refuses_cons (c := backtick) (by decide) _
        have hspace : gap1 (bodyText (some n) method columns rest) = .ok () _ :=
          gap1_space (quotedWith_solid n (Generator.usingMethod method ++ columnsText columns rest))
        rcases identifier_quotedWith_of_mem hmem (Generator.usingMethod method ++
          columnsText columns rest) with hno | ⟨w, t, hok⟩
        · have hnone : (gap1 *> indexName).Refuses (bodyText (some n) method columns rest) :=
            refuses_bind_of_ok hspace (refuses_bind_of_ok husing.absent hno)
          refine absurd h (refuses_bind_of_ok hnone.optional ?_).ne_ok
          exact refuses_indexTail kind none (w := [' ']) (.inr rfl) _
        · have hsome : (gap1 *> indexName) (bodyText (some n) method columns rest) =
              .ok w (backtick :: t) :=
            (bind_of_ok hspace _).trans ((bind_of_ok husing.absent _).trans hok)
          refine absurd h (refuses_bind_of_ok (optional_of_ok hsome) ?_).ne_ok
          exact refuses_indexTail kind (some w) (w := []) (.inl rfl) t
  refine ⟨hlacks, ?_⟩
  have hgap : gap0 (columnsText columns rest) =
      .ok () ('(' :: (Text.joinWith ", ".toList (columnTexts columns) ++ ')' :: rest)) :=
    gap0_append (w := [' ']) (by decide) (solid_of_head (by decide) _)
  rw [bind_of_ok (optionalName_append hnamed (fun n hn => ⟨hname n hn, hlacks n hn⟩) method columns
    rest), indexTail, bind_of_ok (optionalMethod_append method columns rest), bind_of_ok hgap] at h
  obtain ⟨cs, mid, hcs, -⟩ := bind_eq_ok_iff.1 h
  exact not_mem_of_indexColumns hne hcolumn hcs

/-- **An index that is read as one is legible.** -/
theorem plain_of_indexDefinition {i : SchemaDelta.Index} (hi : i.WellFormed) {j : Index}
    (h : indexDefinition (Generator.mysql.index i ++ rest) = .ok j last) : i.Plain := by
  obtain ⟨kind, named, -, hnamed, hiff⟩ := indexDefinition_eq_ok_iff hi rest
  obtain ⟨hname, hcolumns⟩ := not_mem_of_indexBody hnamed hi.name_ne_nil hi.columns_ne_nil
    hi.column_ne_nil ((hiff j last).1 h)
  exact ⟨hname, hcolumns⟩

/-! ### Indices that are taken for columns -/

/-- What stands behind the words of an index, or behind the word for a storage method. -/
def indexTailLeads : List Text :=
  [[backtick], ['(', backtick], "USING".toList, "BTREE".toList, "HASH".toList, "RTREE".toList]

theorem exists_lead_of_bodyText (name : Option Text) (method : Option IndexMethod)
    {columns : List Text} (hne : columns ≠ []) (rest : Text) :
    (∃ t, bodyText name method columns rest = ' ' :: ([backtick] ++ t)) ∨
      (∃ t, bodyText name method columns rest = ' ' :: (['(', backtick] ++ t)) ∨
      ∃ (m : IndexMethod) (t : Text), bodyText name method columns rest =
        ' ' :: ("USING".toList ++ (' ' :: (m.word.toList ++ t))) := by
  obtain ⟨c, columns, rfl⟩ := List.exists_cons_of_ne_nil hne
  cases name with
  | some n => exact .inl ⟨_, rfl⟩
  | none =>
      cases method with
      | some m => exact .inr (.inr ⟨m, columnsText (c :: columns) rest, usingMethod_append m _⟩)
      | none =>
          have hbody : bodyText none none (c :: columns) rest =
              columnsText (c :: columns) rest := rfl
          rw [hbody, columnsText, columnTexts, List.map_cons, Text.joinWith_cons]
          exact .inr (.inl ⟨_, rfl⟩)

theorem solid_lead {lead : Text} (hlead : lead ∈ indexTailLeads) (t : Text) : Solid (lead ++ t) := by
  simp only [indexTailLeads, List.mem_cons, List.not_mem_nil, or_false] at hlead
  rcases hlead with rfl | rfl | rfl | rfl | rfl | rfl <;> exact solid_of_head (by decide) _

/-- A name in quotes is no argument of a type. -/
theorem refuses_typeArg_backtick (t : Text) : typeArg.Refuses (backtick :: t) := by
  have hnumber := refuses_number (c := backtick) (by decide) (by decide) t
  have hstring : quotedString.Refuses (backtick :: t) :=
    ((refuses_quotedBody (by decide) t).map _).orElse ((refuses_quotedBody (by decide) t).map _)
  exact hnumber.orElse (hstring.matched.orElse (refuses_span1 (by decide)))

/-- The rest of an index is no list of arguments, even if it starts with a parenthesis. -/
theorem refuses_typeArgs_lead {lead : Text} (hlead : lead ∈ indexTailLeads) (t : Text) :
    (gap0 *> parenthesized (commaList typeArg)).Refuses (' ' :: (lead ++ t)) := by
  have hgap := gap0_append (w := [' ']) (by decide) (solid_lead hlead t)
  have hother : ∀ {c : Char}, c ≠ '(' → ∀ u,
      (parenthesized (commaList typeArg)).Refuses (c :: u) :=
    fun hc _ => (refuses_char hc).bind _
  have hparen : (parenthesized (commaList typeArg)).Refuses ('(' :: backtick :: t) :=
    refuses_bind_of_ok (char_cons '(' _) (refuses_bind_of_ok (gap0_cons (by decide) t)
      (Refuses.bind ((refuses_typeArg_backtick t).bind _) _))
  refine refuses_bind_of_ok hgap ?_
  simp only [indexTailLeads, List.mem_cons, List.not_mem_nil, or_false] at hlead
  rcases hlead with rfl | rfl | rfl | rfl | rfl | rfl
  · exact hother (by decide) _
  · exact hparen
  all_goals exact hother (by decide) _

/-- A name and a type are read, and the rest of an index is left over. -/
theorem eq_of_fieldDefinition_lead {name type lead : Text} (hname : name ≠ [])
    (hname' : ∀ c ∈ name, isWordChar c = true) (htype : type ≠ [])
    (htype' : ∀ c ∈ type, isWordChar c = true) (hlead : lead ∈ indexTailLeads) {t : Text}
    {g : Field}
    (h : fieldDefinition (name ++ (' ' :: (type ++ (' ' :: (lead ++ t))))) = .ok g last) :
    last = ' ' :: (lead ++ t) := by
  have hspace := gap1_space (solid_lead hlead t)
  have htypes : ∀ lead ∈ indexTailLeads, ∀ w ∈ ["unsigned".toList, "signed".toList,
      "zerofill".toList, "binary".toList], lead.agreesWith w = false := by decide
  have hqualifiers : ∀ lead ∈ indexTailLeads, ∀ w ∈ qualifierWords.flatten,
      lead.agreesWith w = false := by decide
  have hrefuses : (gap1 *> typeQualifier).Refuses (' ' :: (lead ++ t)) :=
    refuses_bind_of_ok hspace (ledBy_typeQualifier.refuses lead (htypes lead hlead) t)
  have hrefuses' : (gap1 *> fieldQualifier).Refuses (' ' :: (lead ++ t)) :=
    refuses_bind_of_ok hspace (ledBy_fieldQualifier.refuses lead (hqualifiers lead hlead) t)
  have hsolid' : Solid (type ++ (' ' :: (lead ++ t))) := by
    obtain ⟨c, u, rfl⟩ := List.exists_cons_of_ne_nil htype
    exact solid_of_head (isGapStart_of_isWordChar (htype' c List.mem_cons_self)) _
  have hbare : bareIdentifier (type ++ (' ' :: (lead ++ t))) = .ok type (' ' :: (lead ++ t)) :=
    span1_append htype htype' (wordEnds_space _)
  rw [fieldDefinition, bind_of_ok (identifier_word hname hname' (wordEnds_space _)),
    bind_of_ok (gap1_space hsolid'), bind_of_ok hbare,
    bind_of_ok (refuses_typeArgs_lead hlead t).optional, bind_of_ok hrefuses.many,
    bind_of_ok hrefuses'.many] at h
  cases h
  rfl

theorem stuck_lead {lead : Text} (hlead : lead ∈ indexTailLeads) (t : Text) :
    Stuck (' ' :: (lead ++ t)) := by
  simp only [indexTailLeads, List.mem_cons, List.not_mem_nil, or_false] at hlead
  have hstuck : ∀ {c : Char} (_ : isGapStart c = false) (_ : c ≠ ',') (_ : c ≠ ')') (u : Text),
      Stuck (' ' :: c :: u) :=
    fun hc hcomma hclose u =>
      ⟨_, u, gap0_append (w := [' ']) (by decide) (solid_of_head hc u), hcomma, hclose⟩
  rcases hlead with rfl | rfl | rfl | rfl | rfl | rfl <;>
    exact hstuck (by decide) (by decide) (by decide) _

/-- A column has a type behind its name. -/
theorem refuses_fieldDefinition_cons {name : Text} (hname : name ≠ [])
    (hname' : ∀ c ∈ name, isWordChar c = true) {c : Char} (hc : isGapStart c = false)
    (hc' : isWordChar c = false) (t : Text) : fieldDefinition.Refuses (name ++ (' ' :: c :: t)) :=
  refuses_bind_of_ok (identifier_word hname hname' (wordEnds_space _))
    (refuses_bind_of_ok (gap1_space (solid_of_head hc t)) ((refuses_span1 hc').bind _))

/-- The reading gets stuck behind the first two words of an index that are taken for a column. -/
theorem stuck_of_fieldDefinition_index {i : SchemaDelta.Index} (hi : i.WellFormed) {g : Field}
    (h : fieldDefinition (Generator.mysql.index i ++ rest) = .ok g last) : Stuck last := by
  have hbody := exists_lead_of_bodyText i.name i.method hi.columns_ne_nil rest
  have hmethod : ∀ m : IndexMethod, m.word.toList ∈ indexTailLeads := by
    intro m
    cases m <;> decide
  have hone : ∀ w : Text, w ≠ [] → (∀ c ∈ w, isWordChar c = true) →
      fieldDefinition (w ++ bodyText i.name i.method i.columns rest) = .ok g last → Stuck last := by
    intro w hne hw h
    rcases hbody with ⟨t, ht⟩ | ⟨t, ht⟩ | ⟨m, t, ht⟩
    · rw [ht] at h
      exact absurd h (refuses_fieldDefinition_cons hne hw (by decide) (by decide) t).ne_ok
    · rw [ht] at h
      exact absurd h (refuses_fieldDefinition_cons hne hw (by decide) (by decide) _).ne_ok
    · rw [ht] at h
      obtain rfl := eq_of_fieldDefinition_lead hne hw (by decide) (by decide) (hmethod m) h
      exact stuck_lead (hmethod m) t
  have htwo : ∀ w : Text, w ≠ [] → (∀ c ∈ w, isWordChar c = true) →
      fieldDefinition (w ++ (' ' :: ("KEY".toList ++ bodyText i.name i.method i.columns rest))) =
        .ok g last → Stuck last := by
    intro w hne hw h
    obtain ⟨lead, hlead, t, ht⟩ : ∃ lead ∈ indexTailLeads, ∃ t,
        bodyText i.name i.method i.columns rest = ' ' :: (lead ++ t) := by
      rcases hbody with ⟨t, ht⟩ | ⟨t, ht⟩ | ⟨m, t, ht⟩
      · exact ⟨[backtick], by decide, t, ht⟩
      · exact ⟨['(', backtick], by decide, t, ht⟩
      · exact ⟨"USING".toList, by decide, _, ht⟩
    rw [ht] at h
    obtain rfl := eq_of_fieldDefinition_lead hne hw (by decide) (by decide) hlead h
    exact stuck_lead hlead t
  have hshape : ∀ w b : Text, w ++ " KEY".toList ++ b = w ++ (' ' :: ("KEY".toList ++ b)) :=
    fun w b => List.append_assoc _ _ _
  rw [index_append, Index.words] at h
  split_ifs at h
  · exact htwo "PRIMARY".toList (by decide) (by decide) (hshape _ _ ▸ h)
  · exact htwo "UNIQUE".toList (by decide) (by decide) (hshape _ _ ▸ h)
  · exact hone "FULLTEXT".toList (by decide) (by decide) h
  · exact hone "SPATIAL".toList (by decide) (by decide) h
  · exact hone "KEY".toList (by decide) (by decide) h

/-- **The reading gets stuck behind a definition that is not legible**, if it gets so far. -/
theorem stuck_of_not_legible {e : Item} (he : e.WellFormed) (hqualifiers : e.HasPlainQualifiers)
    (hnot : ¬ e.Legible) {D : Definition} (h : createDefinition (e.text ++ rest) = .ok D last) :
    Stuck last := by
  cases e with
  | inl f => exact stuck_of_field he hqualifiers hnot h
  | inr i =>
      have hforeign : foreignKeyDefinition.Refuses (Generator.mysql.index i ++ rest) := by
        rw [index_append, Index.words]
        split_ifs <;> exact ledBy_foreignKeyDefinition.refuses _ (by decide) _
      rcases orElse_eq_ok h with h | ⟨-, h⟩
      · obtain ⟨j, hread, -⟩ := map_eq_ok_iff.1 h
        exact absurd (plain_of_indexDefinition he hread) hnot
      · rw [Item.text, firstOf_cons_cons, (hforeign.map _).orElse_apply, firstOf_singleton] at h
        obtain ⟨g, hread, -⟩ := map_eq_ok_iff.1 h
        exact stuck_of_fieldDefinition_index he (within_eq_ok_iff.1 hread)

/-! ### Tables -/

variable {t : SchemaDelta.Table}

/-- What stands behind the name of a written table. -/
def bodyOf (t : SchemaDelta.Table) : Text :=
  Text.joinWith ",\n".toList (t.items.map fun e => "  ".toList ++ e.text) ++ "\n);".toList

theorem createTable_eq_bodyOf (t : SchemaDelta.Table) :
    Generator.mysql.createTable t = "CREATE TABLE ".toList ++
      (Text.quotedWith backtick t.name ++ (' ' :: '(' :: '\n' :: bodyOf t)) := by
  have hopen : " (\n".toList = [' ', '(', '\n'] := rfl
  unfold Generator.createTable bodyOf
  simp only [texts_items, hopen, List.map_map, Function.comp_def, List.append_assoc,
    List.cons_append, List.nil_append]
  rfl

/-- The name of a table that is read lacks backticks, and there is a list behind it. -/
theorem exists_of_createTable (hname : t.name ≠ []) {T : Table}
    (h : createTable (Generator.mysql.createTable t) = .ok T last) :
    backtick ∉ t.name ∧ ∃ Ds mid, parenthesized createDefinitions ('(' :: '\n' :: bodyOf t) =
      .ok Ds mid := by
  have hsolid : Solid ('(' :: '\n' :: bodyOf t) := solid_of_head (by decide) _
  rw [createTable_eq_bodyOf] at h
  have h := (bind_of_ok (tableStart_append ⟨_, rfl⟩) _).symm.trans h
  obtain ⟨body, mid, hbody, -⟩ := bind_eq_ok_iff.1 h
  have hbody := within_eq_ok_iff.1 (commit_eq_ok_iff.1 hbody)
  have hlacks : backtick ∉ t.name := by
    intro hmem
    rcases identifier_quotedWith_of_mem hmem (' ' :: '(' :: '\n' :: bodyOf t) with
      hno | ⟨w, u, hok⟩
    · exact absurd hbody (hno.bind _).ne_ok
    · have hgap : gap0 (backtick :: u) = .ok () (backtick :: u) := gap0_cons (by decide) u
      have hbody := (bind_of_ok hok _).symm.trans hbody
      have hbody := (bind_of_ok hgap _).symm.trans hbody
      obtain ⟨Ds, after, hparens, -⟩ := bind_eq_ok_iff.1 hbody
      exact absurd (within_eq_ok_iff.1 hparens) ((refuses_char (by decide)).bind _).ne_ok
  have hbody := (bind_of_ok (identifier_quotedWith hname hlacks _) _).symm.trans hbody
  have hbody := (bind_of_ok (gap0_append (w := [' ']) (by decide) hsolid) _).symm.trans hbody
  obtain ⟨Ds, after, hparens, -⟩ := bind_eq_ok_iff.1 hbody
  exact ⟨hlacks, Ds, after, within_eq_ok_iff.1 hparens⟩

/-- A table that is read has columns or indices. -/
theorem items_ne_nil_of_parenthesized {Ds : List Definition}
    (h : parenthesized createDefinitions ('(' :: '\n' :: bodyOf t) = .ok Ds last) :
    t.items ≠ [] := by
  intro hitems
  have hindex := ledBy_indexDefinition.refuses_cons (c := ')') (by decide) [';']
  have hforeign := ledBy_foreignKeyDefinition.refuses_cons (c := ')') (by decide) [';']
  have hfield : fieldDefinition.Refuses [')', ';'] :=
    (refuses_identifier (by decide) (by decide) _).bind _
  have hgap : gap0 ('\n' :: bodyOf t) = .ok () [')', ';'] := by
    rw [bodyOf, hitems]
    exact gap0_append (w := ['\n', '\n']) (by decide) (solid_of_head (by decide) [';'])
  have h := (bind_of_ok (char_cons '(' _) _).symm.trans h
  have h := (bind_of_ok hgap _).symm.trans h
  obtain ⟨Ds', mid, hDs, -⟩ := bind_eq_ok_iff.1 h
  obtain ⟨D, mid', hD, -⟩ := bind_eq_ok_iff.1 hDs
  have hD := (createDefinition_eq_field hindex hforeign).symm.trans (commit_eq_ok_iff.1 hD)
  obtain ⟨g, hg, -⟩ := map_eq_ok_iff.1 hD
  exact hfield.ne_ok (within_eq_ok_iff.1 hg)

/-- A written table that is read is read as the creation of a table. -/
theorem exists_createTable_of_read {s' : Schema}
    (h : Schema.read (Generator.mysql.createTable t) .mysql = .ok s') :
    ∃ T last, createTable (Generator.mysql.createTable t) = .ok T last := by
  obtain ⟨ss, hss, -⟩ := Schema.exists_of_read h
  have hshape := createTable_eq_bodyOf t
  obtain ⟨c, u, hcu, hc⟩ : ∃ c u, Generator.mysql.createTable t = c :: u ∧
      Text.isBlankChar c = false := ⟨'C', _, hshape, by decide⟩
  rw [hcu] at hss
  obtain ⟨st, last, hst⟩ := exists_statement_of_readStatements hc hss
  rw [← hcu, hshape] at hst
  obtain ⟨T, hT⟩ := exists_createTable_of_statement hst
  exact ⟨T, last, hshape ▸ hT⟩

section

variable {R : Text → Text → Prop} (hR : Alignment R) (hsame : ∀ s u, R s u → s = u)
  (hwell : t.WellFormed) (hqualifiers : ∀ f ∈ t.fields, ∀ q ∈ f.qualifiers, q.Plain)
  (hintact : Decorated.TableIntact R t)

include hsame in
/-- In one text the rest of what is tracked is its own counterpart. -/
theorem rest_of_tracks {α : Type} {p : Rule α} {f : Text} {P : α → Prop}
    (h : Alignment.Tracks R p f s P) (hs : R (f ++ s) (f ++ s)) : R s s := by
  obtain ⟨a, v, -, -, hv⟩ := h _ hs
  obtain rfl := hsame _ _ hv
  exact hv

include hR in
/-- A legible definition is tracked. -/
theorem tracks_item {e : Item} (he : e.WellFormed) (hlegible : e.Legible)
    (hraw : ∀ f, e = .inl f → ∀ raw, .default (.unclassified raw) ∈ f.qualifiers →
      Decorated.Intact R raw) (hs : DefinitionEnds s) :
    Alignment.Tracks R createDefinition e.text s fun _ => True := by
  have hplain := Decorated.Definition.item?_plain e
  have htracks := Decorated.tracks_createDefinition hR (Decorated.Definition.plain e)
    (fun e' he' => ?_) (fun f hf => ?_) (fun i hi => ?_) (fun f hf => ?_) hs
  · rw [Decorated.Definition.text_plain] at htracks
    exact htracks.mono fun _ _ => trivial
  · rw [hplain] at he'
    cases he'
    exact he
  · rw [hplain] at hf
    cases hf
    exact hlegible
  · rw [hplain] at hi
    cases hi
    exact hlegible
  · rw [hplain] at hf
    cases hf
    exact hraw f rfl

include hR hsame hwell hqualifiers hintact

/-- **The columns and indices of a list that is read are legible.** -/
theorem forall_legible_of_createDefinitions {e : Item} {es : List Item} (hitems : t.items = e :: es)
    (hstart : R (e.text ++ Item.lines [] es) (e.text ++ Item.lines [] es)) {Ds : List Definition}
    {mid after : Text} (h : createDefinitions (e.text ++ Item.lines [] es) = .ok Ds mid)
    (hclose : gap0 mid = .ok () (')' :: after)) : ∀ e ∈ t.items, e.Legible := by
  have hqualifiers : ∀ e ∈ t.items, e.HasPlainQualifiers := by
    intro e he
    cases e with
    | inl f => exact hqualifiers f (SchemaDelta.Table.inl_mem_items.1 he)
    | inr i => exact trivial
  have hgood : ∀ e back, e ∈ t.items → e.Legible →
      R (e.text ++ Item.lines [] back) (e.text ++ Item.lines [] back) →
      R (Item.lines [] back) (Item.lines [] back) ∧
        ∃ D, commit createDefinition (e.text ++ Item.lines [] back) =
          .ok D (Item.lines [] back) := by
    intro e back he hlegible hfits
    have hraw : ∀ f, e = .inl f → _ :=
      fun f hf => hintact f (SchemaDelta.Table.inl_mem_items.1 (hf ▸ he))
    obtain ⟨D, v, hD, -, hv⟩ := tracks_item hR (hwell.items e he) hlegible hraw
      (Item.definitionEnds_lines [] back) _ hfits
    obtain rfl := hsame _ _ hv
    exact ⟨hv, D, commit_eq_ok_iff.2 hD⟩
  have hbad : ∀ e back D m, e ∈ t.items → ¬ e.Legible →
      commit createDefinition (e.text ++ Item.lines [] back) = .ok D m → Stuck m :=
    fun e back D m he hnot h =>
      stuck_of_not_legible (hwell.items e he) (hqualifiers e he) hnot (commit_eq_ok_iff.1 h)
  have hcomma : ∀ e back, R (Item.lines [] (e :: back)) (Item.lines [] (e :: back)) →
      R (e.text ++ Item.lines [] back) (e.text ++ Item.lines [] back) ∧
        comma (Item.lines [] (e :: back)) = .ok () (e.text ++ Item.lines [] back) := by
    intro e back hfits
    have hsettles := (Decorated.Definition.plain e).settles hR (Item.lines [] back)
    rw [Decorated.Definition.text_plain] at hsettles
    obtain ⟨u, v, hread, -, hv⟩ :=
      Alignment.tracks_comma hR (w := ['\n', ' ', ' ']) (by decide) hsettles _ hfits
    obtain rfl := hsame _ _ hv
    exact ⟨hv, hread⟩
  rw [hitems] at hgood hbad ⊢
  exact forall_good_of_sepBy1 Item.text (Item.lines []) (fun s => R s s) hgood hbad hcomma
    (fun _ he => he) hstart h hclose

/-- **A written table that is read is legible**, and it has columns or indices. -/
theorem legible_of_read
    (hstart : R (Generator.mysql.createTable t) (Generator.mysql.createTable t)) {s' : Schema}
    (h : Schema.read (Generator.mysql.createTable t) .mysql = .ok s') :
    t.items ≠ [] ∧ t.Legible := by
  obtain ⟨T, last, hT⟩ := exists_createTable_of_read h
  obtain ⟨hname, Ds, mid, hparens⟩ := exists_of_createTable hwell.name_ne_nil hT
  have hne := items_ne_nil_of_parenthesized hparens
  obtain ⟨e, es, hitems⟩ := List.exists_cons_of_ne_nil hne
  have hshape := createTable_eq hitems []
  rw [List.append_nil] at hshape
  rw [hshape] at hT hstart
  obtain ⟨mid, after, hDs, hclose⟩ :=
    exists_of_createTable_headText hwell.name_ne_nil hname (item_solid e _) hT
  have hsettles := (Decorated.Definition.plain e).settles hR (Item.lines [] es)
  rw [Decorated.Definition.text_plain] at hsettles
  -- the words, the name and the parenthesis in front of the first definition
  have hrest := rest_of_tracks hsame (Decorated.tracks_tableStart hR (.plain t hne) _) hstart
  have hrest := rest_of_tracks hsame (Alignment.tracks_name hR hwell.name_ne_nil hname _) hrest
  have hrest := rest_of_tracks (f := [' ']) hsame
    (Alignment.tracks_gap0 hR (by decide) (Alignment.settles_cons hR (by decide) _)) hrest
  have hrest := rest_of_tracks (f := ['(']) hsame (Alignment.tracks_char hR (by decide) _) hrest
  have hfits := rest_of_tracks (f := ['\n', ' ', ' ']) hsame
    (Alignment.tracks_gap0 hR (by decide) hsettles) hrest
  have hlegible := forall_legible_of_createDefinitions hR hsame hwell hqualifiers hintact hitems
    hfits hDs hclose
  refine ⟨hne, hname, fun f hf => ?_, fun i hi => ?_⟩
  · exact hlegible (.inl f) (SchemaDelta.Table.inl_mem_items.2 hf)
  · exact hlegible (.inr i) (SchemaDelta.Table.inr_mem_items.2 hi)

end

end Source

end SchemaDelta
