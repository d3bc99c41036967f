/-
**Which columns survive being written and read again.**

The name of a column is written in quotes, and a string with its escapes, but the name of a character
set or a collation is written as it is, even if it stood in quotes before.  So it is read back only
if it is a word.  The type is written in upper case and goes into lower case again; that is no way
back for a sharp s, which becomes two letters, or for a capital i with a dot, which leaves a mark
behind that no word has.  And a default that was kept as a word may run on into a call.

These are all the ways in which a column is lost.  That a name which is no word is lost takes an
argument: white space in front of it might be skipped, and a mark in it might open a comment with
which the reading goes on far behind.  But then the marks in the comment would be missing in the end.

Main definitions:

* `SchemaDelta.Field.Restorable` — the columns that survive in front of a given text.

Main results:

* `SchemaDelta.Source.isWordChar_of_identifier` — a name that is written without quotes is read back
  only if it is a word;
* `SchemaDelta.Source.plain_of_qualifiers` — the qualifiers that are read back;
* `SchemaDelta.Source.fieldDefinition_field_iff` — **a column survives exactly if it is restorable**.
-/

import SchemaDelta.Proofs.Marks

set_option relaxedAutoImplicit false
set_option autoImplicit false

namespace SchemaDelta

/-- The columns that survive being written in front of the given text and read again. -/
structure Field.Restorable (f : Field) (follow : Text) : Prop where
  /-- The type is written as a word. -/
  word : ∀ c ∈ Text.uppercase f.type, isWordChar c = true
  /-- Its letters come back in lower case. -/
  lower : Text.lowercase (Text.uppercase f.type) = f.type
  /-- Character sets and collations are words. -/
  qualifiers : ∀ q ∈ f.qualifiers, q.Plain
  /-- No default runs on into a call. -/
  calls : ¬ f.RunsOn follow

namespace Source

open Rule Lexeme

variable {rest : Text}

/-! ### Names without quotes -/

/-- The first character that is not white space. -/
theorem eq_of_space_append {c d : Char} {g t u : Text} (h : d :: u = g ++ c :: t)
    (hg : ∀ x ∈ g, isSpace x = true) (hd : isSpace d = false) : c = d := by
  cases g with
  | nil => exact (List.cons.inj h).1.symm
  | cons x g =>
      obtain ⟨rfl, -⟩ := List.cons.inj h
      rw [hg d List.mem_cons_self] at hd
      cases hd

/-- The first thing behind white space where qualifiers follow, or the end of the definition, is no
quote. -/
theorem isNameQuote_of_texts_eq {qs : List SchemaDelta.Qualifier} (hrest : ItemEnds rest)
    {g t : Text} {c : Char} (h : Qualifier.texts qs ++ rest = g ++ c :: t)
    (hg : ∀ x ∈ g, isSpace x = true) : Text.isNameQuote c = false := by
  cases qs with
  | nil =>
      obtain ⟨d, u, rfl, hd⟩ := hrest
      have hplain : isSpace d = false ∧ Text.isNameQuote d = false := by
        rcases hd with rfl | rfl <;> decide
      rw [eq_of_space_append h hg hplain.1]
      exact hplain.2
  | cons q qs =>
      obtain ⟨d, u, hq, hword⟩ := exists_qualifier_eq_cons q
      have hsolid := solid_of_head (isGapStart_of_isWordChar hword) u
      rw [texts_cons, hq] at h
      cases g with
      | nil =>
          obtain ⟨rfl, -⟩ := List.cons.inj h
          decide
      | cons x g =>
          rw [eq_of_space_append (List.cons.inj h).2 (fun y hy => hg y (List.mem_cons_of_mem x hy))
            (hsolid.isSpace_head d rfl)]
          exact Text.isNameQuote_of_isWordChar hword

/-- The first character behind a gap that may begin in a name stands behind the name if the name
lacks it. -/
theorem exists_behind_of_append_eq {name behind g t : Text} {q : Char}
    (h : name ++ behind = g ++ q :: t) (hlacks : q ∉ name) :
    ∃ g' t', behind = g' ++ q :: t' ∧ ∀ x ∈ g', x ∈ g := by
  rcases List.append_eq_append_iff.1 h with ⟨g', hg, hlater⟩ | ⟨c, hname, hquoted⟩
  · exact ⟨g', t, hlater, fun x hx => hg ▸ List.mem_append_right _ hx⟩
  · cases c with
    | nil => exact ⟨[], t, hquoted.symm, List.forall_mem_nil _⟩
    | cons y c =>
        obtain ⟨rfl, -⟩ := List.cons.inj hquoted
        exact absurd (hname ▸ List.mem_append_right g List.mem_cons_self) hlacks

/-- **A name that is written without quotes is read back only if it is a word**, provided that no
mark of what stands behind it is lost. -/
theorem isWordChar_of_identifier {name behind written last : Text}
    (hbehind : ∀ g c t, behind = g ++ c :: t → (∀ x ∈ g, isSpace x = true) →
      Text.isNameQuote c = false)
    (hrun : (gap1 *> identifier) (' ' :: (name ++ behind)) = .ok written last)
    (hname : Text.unquote written = name)
    (hcount : ∀ m ∈ commentMarks, behind.count m ≤ last.count m) :
    ∀ c ∈ name, isWordChar c = true := by
  obtain ⟨⟨⟩, mid, hgap, hread⟩ := bind_eq_ok_iff.1 hrun
  -- no mark is lost in the gap, so it is white space
  have hmarks : ∀ m ∈ commentMarks, (' ' :: (name ++ behind)).count m ≤ mid.count m := by
    intro m hm
    have hspace : ' ' ≠ m := by
      revert m
      decide
    have hspent : (Text.unquote written).count m + last.count m ≤ mid.count m :=
      spends_identifier mid written last hread
    have hlast := hcount m hm
    rw [List.count_cons_of_ne hspace, List.count_append, ← hname]
    omega
  obtain ⟨g, happend, hspace⟩ := exists_space_of_gap0 (gap0_of_gap1 hgap) hmarks
  have hsolid := solid_of_gap1 hgap
  cases g with
  | nil =>
      have hmid : mid = ' ' :: (name ++ behind) := happend.symm
      rw [hmid] at hsolid
      have hblank := hsolid.isSpace_head ' ' rfl
      cases hblank
  | cons x g =>
      have hjoin : name ++ behind = g ++ mid := (List.cons.inj happend).2
      have hblank : ∀ y ∈ g, isSpace y = true := fun y hy => hspace y (List.mem_cons_of_mem x hy)
      obtain ⟨rfl, ⟨q, inner, hq, hne, hlacks, rfl⟩ | ⟨-, hword, -⟩⟩ := exists_of_identifier hread
      · -- the opening quote would stand behind the name, where there is none
        rw [Text.unquote_between hq hne] at hname
        subst hname
        obtain ⟨g', t', hlater, hg'⟩ := exists_behind_of_append_eq hjoin hlacks
        have hnot := hbehind g' q t' hlater fun y hy => hblank y (hg' y hy)
        rw [hq] at hnot
        cases hnot
      · rw [Text.unquote_word hword] at hname
        exact hname ▸ hword

/-! ### Qualifiers -/

variable {q : SchemaDelta.Qualifier} {qs : List SchemaDelta.Qualifier}

/-- A character set or a collation that is read back is a word. -/
theorem plain_of_fieldQualifier (hrest : ItemEnds rest) {w : Qualifier} {last : Text}
    (hread : fieldQualifier (Generator.mysql.qualifier q ++ (Qualifier.texts qs ++ rest)) =
      .ok w last) (hvalue : ∀ v ∈ w.meaning?, v = q)
    (hcount : ∀ m ∈ commentMarks, (Qualifier.texts qs ++ rest).count m ≤ last.count m) :
    q.Plain := by
  have hbehind : ∀ g c t, Qualifier.texts qs ++ rest = g ++ c :: t →
      (∀ x ∈ g, isSpace x = true) → Text.isNameQuote c = false :=
    fun g c t => isNameQuote_of_texts_eq hrest
  cases q with
  | characterSet name =>
      have hset := eq_ok_of_firstOf_ledBy ledBy_fieldQualifiers 4 rfl "CHARACTER SET ".toList
        (by decide) hread
      obtain ⟨written, hclause, rfl⟩ := map_eq_ok_iff.1 hset
      have hwords := orElse_of_ok (keywords_append "character set" "CHARACTER".toList "SET".toList rfl
        (by decide) (by decide) (by decide) (wordEnds_space (name ++ (Qualifier.texts qs ++ rest))))
        (keyword "charset")
      have hrun : (gap1 *> identifier) (' ' :: (name ++ (Qualifier.texts qs ++ rest))) =
          .ok written last := (bind_of_ok hwords _).symm.trans hclause
      have heq : Text.unquote written = name :=
        SchemaDelta.Qualifier.characterSet.inj (hvalue _ rfl)
      exact isWordChar_of_identifier hbehind hrun heq hcount
  | collate name =>
      have hset := eq_ok_of_firstOf_ledBy ledBy_fieldQualifiers 5 rfl "COLLATE ".toList
        (by decide) hread
      obtain ⟨written, hclause, rfl⟩ := map_eq_ok_iff.1 hset
      have hwords := keyword_append "collate" "COLLATE".toList (by decide)
        (wordEnds_space (name ++ (Qualifier.texts qs ++ rest)))
      have hrun : (gap1 *> identifier) (' ' :: (name ++ (Qualifier.texts qs ++ rest))) =
          .ok written last := (bind_of_ok hwords _).symm.trans hclause
      have heq : Text.unquote written = name := SchemaDelta.Qualifier.collate.inj (hvalue _ rfl)
      exact isWordChar_of_identifier hbehind hrun heq hcount
  | notNull | null | primaryKey | autoIncrement | uniqueKey | key | default => trivial

/-- Behind the first qualifier the marks of the others are still there, whether it was kept or not. -/
theorem count_le_of_meaning {w : Qualifier} {ws : List Qualifier}
    {mid : Text} (hothers : Rule.many (gap1 *> fieldQualifier) mid = .ok ws rest)
    (hvalue : (w :: ws).filterMap Qualifier.meaning? = q :: qs) {m : Char}
    (hm : m ∈ commentMarks) : (Qualifier.texts qs ++ rest).count m ≤ mid.count m := by
  have hspent : (Qualifier.texts (ws.filterMap Qualifier.meaning?)).count m + rest.count m ≤
      mid.count m := spends_qualifiers hm mid ws rest hothers
  rw [List.filterMap_cons] at hvalue
  rw [List.count_append]
  cases hw : w.meaning? with
  | none =>
      rw [hw] at hvalue
      have hall : ws.filterMap Qualifier.meaning? = q :: qs := hvalue
      rw [hall, count_texts_cons] at hspent
      omega
  | some v =>
      rw [hw] at hvalue
      obtain ⟨-, hall⟩ := List.cons.inj hvalue
      rw [hall] at hspent
      exact hspent

/-- **The qualifiers that are read back** are plain, and none of their defaults runs on. -/
theorem plain_of_qualifiers (hrest : ItemEnds rest) (hqs : ∀ q ∈ qs, q.WellFormed)
    {ws : List Qualifier}
    (hread : Rule.many (gap1 *> fieldQualifier) (Qualifier.texts qs ++ rest) = .ok ws rest)
    (hvalue : ws.filterMap Qualifier.meaning? = qs) :
    (∀ q ∈ qs, q.Plain) ∧ ¬ SomeMarred (Qualifier.RunsOn rest) qs := by
  induction qs generalizing ws with
  | nil =>
      refine ⟨List.forall_mem_nil _, ?_⟩
      rintro ⟨front, q, back, hnil, -⟩
      cases front <;> cases hnil
  | cons q qs ih =>
      have hne : ws ≠ [] := by
        rintro rfl
        cases hvalue
      obtain ⟨w, mid, ws, rfl, hfirst, hothers⟩ := exists_of_many_ne_nil hread hne
      have hcount : ∀ m ∈ commentMarks, (Qualifier.texts qs ++ rest).count m ≤ mid.count m :=
        fun m hm => count_le_of_meaning hothers hvalue hm
      rw [List.filterMap_cons] at hvalue
      have hhead : ∀ v ∈ w.meaning?, v = q ∧ ws.filterMap Qualifier.meaning? = qs := by
        intro v hv
        rw [Option.mem_def.1 hv] at hvalue
        exact List.cons.inj hvalue
      have hq : q.WellFormed := hqs q List.mem_cons_self
      have hplain : q.Plain := by
        have hown := hfirst
        rw [texts_cons] at hown
        have hown := (bind_of_ok (gap1_space (solid_qualifier q _)) _).symm.trans hown
        exact plain_of_fieldQualifier hrest hown (fun v hv => (hhead v hv).1) hcount
      have hnot : ¬ Qualifier.RunsOn rest q qs := by
        intro hruns
        obtain ⟨k, hk, hmis⟩ := misreads_qualifiers (.inl hrest) q qs ⟨hq, hplain⟩ hruns
        obtain ⟨k', hk', hdiff⟩ := hmis w mid hfirst
        rw [Option.bind_fun_some] at hk'
        cases hk
        exact hdiff (hhead k' hk').1
      obtain ⟨w', hown, hmeaning⟩ :=
        (readsBack_qualifiers (.inl hrest)).read q qs ⟨hq, hplain⟩ hnot
      rw [hown] at hfirst
      cases hfirst
      obtain ⟨hothersPlain, hothersNot⟩ := ih (fun p hp => hqs p (List.mem_cons_of_mem q hp))
        hothers (hhead q hmeaning).2
      refine ⟨fun p hp => ?_, fun hsome => ?_⟩
      · rcases List.mem_cons.1 hp with rfl | hp
        · exact hplain
        · exact hothersPlain p hp
      · exact (someMarred_cons.1 hsome).elim hnot hothersNot

/-! ### Types -/

variable {f : SchemaDelta.Field}

/-- Above ASCII nothing is a gap, a parenthesis or a comma. -/
theorem isGapStart_of_not_ascii {c : Char} (hc : ¬ c.toNat < 128) : isGapStart c = false := by
  cases hgap : isGapStart c with
  | false => rfl
  | true =>
      simp only [isGapStart, isSpace, Bool.or_eq_true, beq_iff_eq] at hgap
      rcases hgap with ((((((rfl | rfl) | rfl) | rfl) | rfl) | rfl) | rfl) <;>
        exact absurd (by decide) hc

/-- A type that is not written as a word is cut off at a character above ASCII. -/
theorem exists_of_not_isWordChar (hf : f.WellFormed)
    (hnot : ¬ ∀ c ∈ Text.uppercase f.type, isWordChar c = true) :
    ∃ front c back, Text.uppercase f.type = front ++ c :: back ∧
      (∀ d ∈ front, isWordChar d = true) ∧ isWordChar c = false ∧ ¬ c.toNat < 128 := by
  have hsplit := List.takeWhile_append_dropWhile (p := isWordChar) (l := Text.uppercase f.type)
  have hhead := List.head?_dropWhile_not isWordChar (Text.uppercase f.type)
  cases hback : (Text.uppercase f.type).dropWhile isWordChar with
  | nil =>
      rw [hback, List.append_nil] at hsplit
      refine absurd (fun c hc => ?_) hnot
      rw [← hsplit] at hc
      exact List.mem_takeWhile_imp hc
  | cons c back =>
      rw [hback] at hsplit hhead
      have hword : isWordChar c = false := by simpa using hhead
      refine ⟨_, c, back, hsplit.symm, fun d hd => List.mem_takeWhile_imp hd, hword, fun hc => ?_⟩
      have hmem : c ∈ Text.uppercase f.type := hsplit ▸ List.mem_append_right _ List.mem_cons_self
      obtain ⟨d, hd, hcd⟩ := List.mem_flatMap.1 hmem
      rw [Text.isWordChar_of_mem_upperChar (fun h => (hf.type_lower d hd h).1) hcd hc] at hword
      cases hword

/-- A column whose type is not written as a word is read up to a character above ASCII. -/
theorem exists_of_fieldDefinition_field (hf : f.WellFormed) (hname : backtick ∉ f.name)
    (hnot : ¬ ∀ c ∈ Text.uppercase f.type, isWordChar c = true) {g : Field} {last : Text}
    (h : fieldDefinition (Generator.mysql.field f ++ rest) = .ok g last) :
    ∃ c t, last = c :: t ∧ ¬ c.toNat < 128 := by
  obtain ⟨front, c, back, htype, hfront, hword, hascii⟩ := exists_of_not_isWordChar hf hnot
  have hsolid : ∀ t, Solid (c :: t) := solid_of_head (isGapStart_of_not_ascii hascii)
  rw [field_append, htype, List.append_assoc, List.cons_append, fieldDefinition,
    bind_of_ok (identifier_quotedWith hf.name_ne_nil hname _)] at h
  generalize back ++ (Generator.typeArgs f.args ++ (Qualifier.texts f.qualifiers ++ rest)) = tail at h
  cases front with
  | nil =>
      rw [List.nil_append, bind_of_ok (gap1_space (hsolid _))] at h
      exact absurd h ((refuses_span1 hword).bind _).ne_ok
  | cons d front =>
      have hd := isGapStart_of_isWordChar (hfront d List.mem_cons_self)
      have hbare : bareIdentifier (d :: front ++ c :: tail) = .ok (d :: front) (c :: tail) :=
        span1_append (List.cons_ne_nil d front) hfront (wordEnds_cons hword tail)
      rw [List.cons_append, bind_of_ok (gap1_space (solid_of_head hd _)), ← List.cons_append] at h
      -- what follows the word is neither a parenthesis nor a gap
      have hopen : c ≠ '(' := by
        rintro rfl
        exact hascii (by decide)
      have hargs : (gap0 *> parenthesized (commaList typeArg)).Refuses (c :: tail) :=
        refuses_bind_of_ok (gap0_of_solid (hsolid tail)) ((refuses_char hopen).bind _)
      have hgaps : ∀ {α : Type} (p : Rule α), (gap1 *> p).Refuses (c :: tail) :=
        fun p => (refuses_gap1 (hsolid tail)).bind _
      rw [bind_of_ok hbare, bind_of_ok hargs.optional, bind_of_ok (hgaps typeQualifier).many,
        bind_of_ok (hgaps fieldQualifier).many] at h
      cases h
      exact ⟨c, tail, rfl, hascii⟩

/-- So it is not read up to its end. -/
theorem ne_of_not_isWordChar (hf : f.WellFormed) (hname : backtick ∉ f.name) (hrest : ItemEnds rest)
    (hnot : ¬ ∀ c ∈ Text.uppercase f.type, isWordChar c = true) {g : Field} {last : Text}
    (h : fieldDefinition (Generator.mysql.field f ++ rest) = .ok g last) : last ≠ rest := by
  obtain ⟨c, u, rfl, hascii⟩ := exists_of_fieldDefinition_field hf hname hnot h
  -- the end of a definition is no character above ASCII
  intro heq
  obtain ⟨e, t, rfl, he⟩ := hrest
  obtain ⟨rfl, -⟩ := List.cons.inj heq
  rcases he with rfl | rfl <;> exact hascii (by decide)

/-! ### Columns -/

/-- **A column survives exactly if it is restorable.** -/
theorem fieldDefinition_field_iff {s follow : Text} {written : Field}
    (h : fieldDefinition s = .ok written rest) (hname : backtick ∉ written.meaning.name)
    (hfollow : ItemEnds follow) :
    (∃ again, fieldDefinition (Generator.mysql.field written.meaning ++ follow) = .ok again follow ∧
      again.meaning = written.meaning) ↔ written.meaning.Restorable follow := by
  have hf : written.meaning.WellFormed := yields_fieldDefinition s written rest h
  generalize written.meaning = f at hf hname
  constructor
  · rintro ⟨again, hread, hagain⟩
    have hword : ∀ c ∈ Text.uppercase f.type, isWordChar c = true := by
      by_contra hnot
      exact ne_of_not_isWordChar hf hname hfollow hnot hread rfl
    obtain ⟨g, hmeaning, hrest⟩ := fieldDefinition_qualifiers hf hname hword (.inl hfollow)
    rw [hrest] at hread
    obtain ⟨qs, mid, hqs, hpure⟩ := bind_eq_ok_iff.1 hread
    cases hpure
    rw [hmeaning] at hagain
    obtain ⟨hplain, hcalls⟩ := plain_of_qualifiers hfollow hf.qualifiers hqs
      (congrArg SchemaDelta.Field.qualifiers hagain)
    exact ⟨hword, congrArg SchemaDelta.Field.type hagain, hplain, hcalls⟩
  · intro hres
    exact fieldDefinition_of_lowercase hf hname hres.word hres.lower hres.qualifiers (.inl hfollow)
      hres.calls

/-- A sharp s becomes two letters, which do not become one again. -/
example : Text.lowercase (Text.uppercase "maß".toList) = "mass".toList := by decide

/-- A type above ASCII, a character set between quotes that is a word, and two dashes in a string. -/
theorem fieldDefinition_field_sample :
    let s := "a ÉNUM('x') CHARACTER SET 'utf8' DEFAULT '--' UNIQUE".toList
    ∃ written, fieldDefinition s = .ok written [] ∧
      backtick ∉ written.meaning.name ∧ ItemEnds [','] ∧
      ∃ again, fieldDefinition (Generator.mysql.field written.meaning ++ [',']) = .ok again [','] ∧
        again.meaning = written.meaning := by
  intro s
  let written : Field :=
    { name := ['a'], type := "ÉNUM".toList, args := ["'x'".toList], typeQualifiers := []
      qualifiers := [.characterSet "'utf8'".toList, .default (.quoted singleQuote "--".toList), .uniqueKey] }
  have hread : fieldDefinition s = .ok written [] := by decide +kernel
  have hends : ItemEnds [','] := ⟨',', [], rfl, .inl rfl⟩
  have hcalls : ¬ written.meaning.RunsOn [','] :=
    not_runsOn_of_lacksDashes (yields_fieldDefinition s written [] hread) (by decide) (.inl hends)
  exact ⟨written, hread, by decide, hends, (fieldDefinition_field_iff hread (by decide) hends).2
    ⟨by decide, by decide, by decide, hcalls⟩⟩

/-- The quotes of a character set that is no word are lost: what is read ends at the dash. -/
theorem exists_fieldDefinition_field_ne :
    ∃ s written, fieldDefinition s = .ok written [] ∧ backtick ∉ written.meaning.name ∧
      ∀ again, fieldDefinition (Generator.mysql.field written.meaning ++ [',']) ≠
        .ok again [','] := by
  let written : Field :=
    { name := ['a'], type := "TEXT".toList, args := [], typeQualifiers := []
      qualifiers := [.characterSet "'utf-8'".toList] }
  have hagain : fieldDefinition (Generator.mysql.field written.meaning ++ [',']) =
      .ok { name := "`a`".toList, type := "TEXT".toList, args := [], typeQualifiers := []
            qualifiers := [.characterSet "utf".toList] } "-8,".toList := by decide +kernel
  refine ⟨"a TEXT CHARACTER SET 'utf-8'".toList, written, by decide +kernel, by decide,
    fun again h => ?_⟩
  rw [hagain] at h
  exact absurd (Outcome.ok.inj h).2 (by decide)

end Source

end SchemaDelta
