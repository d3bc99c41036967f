/-
**Gaps and keywords in front of any text.**

A gap is read up to the first solid text, one that neither white space nor a comment stands in
front of.  A keyword is read where its letters stand in front and no word character follows, and
what it refuses is known from the letters alone.

Main definitions:

* `SchemaDelta.Lexeme.Solid` — no gap stands in front of a text;
* `SchemaDelta.Text.Spells` — a text has the letters of a keyword, one for one;
* `SchemaDelta.Lexeme.WordEnds`, `SchemaDelta.Lexeme.Stops`, `SchemaDelta.Lexeme.NoCall` — what may
  follow a word.

Main results:

* `SchemaDelta.Lexeme.gap0_append`, `SchemaDelta.Lexeme.gap1_append` — white space in front of a
  solid text is a gap;
* `SchemaDelta.Lexeme.solid_of_gap1` — after a gap the text is solid;
* `SchemaDelta.Lexeme.keyword_append`, `SchemaDelta.Lexeme.keywords_append` — **keywords are read
  in front of any text that does not run on**;
* `SchemaDelta.Lexeme.letters_eq_ok_iff` — what is read as a word has its letters.
-/

import SchemaDelta.Proofs.Letters
import SchemaDelta.Proofs.Rule

set_option relaxedAutoImplicit false
set_option autoImplicit false

namespace SchemaDelta

namespace Lexeme

open Rule

/-! ### Rules that take text -/

/-- What a rule leaves is shorter than the text by `n` characters at least. -/
def Takes {α : Type} (n : Nat) (p : Rule α) : Prop :=
  ∀ s a rest, p s = .ok a rest → rest.length + n ≤ s.length

section Takes

variable {α β : Type} {p q : Rule α} {n m : Nat}

theorem Takes.mono (hp : Takes n p) (h : m ≤ n) : Takes m p :=
  fun s a rest ha => (Nat.add_le_add_left h rest.length).trans (hp s a rest ha)

theorem Takes.bind {f : α → Rule β} (hp : Takes n p) (hf : ∀ a, Takes m (f a)) :
    Takes (n + m) (p >>= f) := by
  intro s b rest h
  obtain ⟨a, mid, ha, hb⟩ := bind_eq_ok_iff.1 h
  have hfront := hp s a mid ha
  have hback := hf a mid b rest hb
  omega

theorem Takes.orElse (hp : Takes n p) (hq : Takes n q) : Takes n (p <|> q) := by
  intro s a rest h
  rcases orElse_eq_ok h with h | ⟨-, h⟩
  · exact hp s a rest h
  · exact hq s a rest h

theorem Takes.matched (hp : Takes n p) : Takes n p.matched := by
  intro s t rest h
  obtain ⟨a, ha, -⟩ := matched_eq_ok h
  exact hp s a rest ha

theorem takes_literal (word : String) : Takes word.toList.length (literal word) := by
  intro s t rest h
  rw [literal] at h
  split at h
  · next hprefix =>
      cases h
      have hle := (List.isPrefixOf_iff_prefix.1 hprefix).length_le
      rw [List.length_drop]
      omega
  · cases h

theorem takes_span (f : Char → Bool) : Takes 0 (span f) := by
  intro s t rest h
  cases h
  exact (List.dropWhile_sublist f).length_le

theorem takes_span1 (f : Char → Bool) : Takes 1 (span1 f) := by
  intro s t rest h
  obtain ⟨hne, rfl, rfl⟩ := span1_eq_ok_iff.1 h
  have hlen := congrArg List.length (List.takeWhile_append_dropWhile (p := f) (l := s))
  have hpos := List.length_pos_iff.2 hne
  rw [List.length_append] at hlen
  omega

theorem takes_upTo (mark : String) : Takes 0 (upTo mark) := by
  have hsplit : ∀ s front rest,
      Text.splitBefore? mark.toList s = some (front, rest) → rest.length ≤ s.length := by
    intro s
    induction s with
    | nil =>
        intro front rest h
        rw [Text.splitBefore?] at h
        split at h <;> cases h
        exact Nat.le_refl _
    | cons c s ih =>
        intro front rest h
        rw [Text.splitBefore?] at h
        split at h
        · cases h
          exact Nat.le_refl _
        · obtain ⟨parts, hparts, heq⟩ := Option.map_eq_some_iff.1 h
          cases heq
          exact Nat.le_succ_of_le (ih _ _ hparts)
  exact fun s front rest h => hsplit s front rest (upTo_eq_ok h)

/-- A repetition of a rule that takes something ends where the rule refuses. -/
theorem refuses_of_many_eq_ok (hp : Takes 1 p) {s last : Text} {as : List α}
    (h : p.many s = .ok as last) : p.Refuses last := by
  fun_induction Rule.many p s generalizing as last with
  | case1 s a rest hps hlt bs mid hm ih => cases h; exact ih hm
  | case2 => cases h
  | case3 => cases h
  | case4 s a rest hps hnot =>
      have htake := hp s a rest hps
      exact absurd (by omega) hnot
  | case5 s why hps => cases h; exact ⟨why, hps⟩
  | case6 => cases h

end Takes

/-! ### Gaps -/

/-- Neither white space nor a comment stands in front. -/
def Solid (s : Text) : Prop :=
  (spaces <|> comment).Refuses s

/-- The characters that a gap may start with. -/
def isGapStart (c : Char) : Bool :=
  isSpace c || c == '#' || c == '-' || c == '/'

variable {s w : Text}

theorem takes_gap : Takes 1 (spaces <|> comment) := by
  refine (takes_span1 isSpace).orElse (Takes.orElse ?_ ?_)
  · refine Takes.matched (Takes.bind (n := 1) (m := 0) ?_ fun _ => takes_span _)
    exact ((takes_literal "#").mono (by decide)).orElse ((takes_literal "--").mono (by decide))
  · refine Takes.matched (Takes.bind (n := 1) (m := 0) ((takes_literal "/*").mono (by decide)) ?_)
    exact fun _ => (takes_upTo "*/").bind fun _ => (takes_literal "*/").mono (Nat.zero_le _)

theorem refuses_literal {word : String} (h : word.toList.isPrefixOf s = false) :
    (literal word).Refuses s :=
  ⟨⟨s, []⟩, if_neg (by simp [h])⟩

theorem refuses_comment {c : Char} {t : Text} (hhash : c ≠ '#') (hslash : c ≠ '/')
    (hdash : c = '-' → ∀ d ∈ t.head?, d ≠ '-') : comment.Refuses (c :: t) := by
  -- only a dash may start like the mark of a line comment
  have hline : (literal "--").Refuses (c :: t) := by
    refine refuses_literal ?_
    by_cases hc : c = '-'
    · cases t with
      | nil => simp [List.isPrefixOf]
      | cons d t =>
          have hd : d ≠ '-' := hdash hc d rfl
          simp [List.isPrefixOf, hd.symm]
    · simp [List.isPrefixOf, Ne.symm hc]
  have hhash : (literal "#").Refuses (c :: t) :=
    refuses_literal (by simp [List.isPrefixOf, hhash.symm])
  have hblock : (literal "/*").Refuses (c :: t) :=
    refuses_literal (by simp [List.isPrefixOf, hslash.symm])
  exact ((hhash.orElse hline).bind _).matched.orElse (hblock.bind _).matched

theorem refuses_comment_of_head {c : Char} (h : isGapStart c = false) (t : Text) :
    comment.Refuses (c :: t) := by
  simp only [isGapStart, Bool.or_eq_false_iff, beq_eq_false_iff_ne] at h
  exact refuses_comment h.1.1.2 h.2 fun hc => absurd hc h.1.2

theorem solid_of_head {c : Char} (h : isGapStart c = false) (t : Text) : Solid (c :: t) := by
  have hspace : isSpace c = false := by
    simp only [isGapStart, Bool.or_eq_false_iff] at h
    exact h.1.1.1
  exact (refuses_span1 hspace).orElse (refuses_comment_of_head h t)

/-- A dash that no other dash follows is solid. -/
theorem solid_dash {t : Text} (h : ∀ d ∈ t.head?, d ≠ '-') : Solid ('-' :: t) :=
  (refuses_span1 (by decide)).orElse (refuses_comment (by decide) (by decide) fun _ => h)

theorem Solid.isSpace_head (h : Solid s) : ∀ c ∈ s.head?, isSpace c = false := by
  intro c hc
  cases s with
  | nil => cases hc
  | cons d t =>
      cases hc
      cases hspace : isSpace c with
      | false => rfl
      | true =>
          obtain ⟨why, h⟩ := h
          have hok : spaces (c :: t) = .ok (c :: t.takeWhile isSpace) (t.dropWhile isSpace) := by
            simp [spaces, span1, hspace]
          rw [orElse_of_ok hok] at h
          cases h

theorem Solid.not_dashes (h : Solid s) : ¬ ['-', '-'] <+: s := by
  rintro ⟨t, rfl⟩
  obtain ⟨why, h⟩ := h
  have hspaces : spaces.Refuses ('-' :: '-' :: t) := refuses_span1 (by decide)
  have hhash : (literal "#").Refuses ('-' :: '-' :: t) := refuses_literal rfl
  have hdashes : literal "--" ('-' :: '-' :: t) = .ok ['-', '-'] t := rfl
  change (spaces <|> comment) ('-' :: '-' :: t) = .mismatch why at h
  have hline : lineComment ('-' :: '-' :: t) =
      .ok (('-' :: '-' :: t).take (('-' :: '-' :: t).length - (t.dropWhile (· != '\n')).length))
        (t.dropWhile (· != '\n')) := by
    rw [lineComment, matched, bind_of_ok ((hhash.orElse_apply _).trans hdashes)]
    rfl
  rw [hspaces.orElse_apply, comment, orElse_of_ok hline] at h
  cases h

theorem gap0_of_solid (h : Solid s) : gap0 s = .ok () s := by
  rw [gap0, discard_apply, h.many]

theorem gap0_cons {c : Char} (h : isGapStart c = false) (t : Text) :
    gap0 (c :: t) = .ok () (c :: t) :=
  gap0_of_solid (solid_of_head h t)

theorem refuses_gap1 (h : Solid s) : gap1.Refuses s :=
  (h.bind _).discard

/-- White space in front of a solid text is one run of spaces. -/
theorem spaces_append (hne : w ≠ []) (hw : w.all isSpace = true) (h : Solid s) :
    (spaces <|> comment) (w ++ s) = .ok w s :=
  orElse_of_ok (span1_append hne (List.all_eq_true.1 hw) h.isSpace_head) comment

theorem gap1_append (hne : w ≠ []) (hw : w.all isSpace = true) (h : Solid s) :
    gap1 (w ++ s) = .ok () s := by
  rw [gap1, discard_apply, many1, bind_of_ok (spaces_append hne hw h), bind_of_ok h.many]
  rfl

theorem gap0_append (hw : w.all isSpace = true) (h : Solid s) : gap0 (w ++ s) = .ok () s := by
  by_cases hne : w = []
  · subst hne
    exact gap0_of_solid h
  · have hlt : s.length < (w ++ s).length := by
      have hpos := List.length_pos_iff.2 hne
      rw [List.length_append]
      omega
    rw [gap0, discard_apply, many_eq_cons (spaces_append hne hw h) hlt h.many]

theorem gap1_space (h : Solid s) : gap1 (' ' :: s) = .ok () s :=
  gap1_append (w := [' ']) (by decide) (by decide) h

/-- After a gap the text is solid. -/
theorem solid_of_gap1 {rest : Text} (h : gap1 s = .ok () rest) : Solid rest := by
  obtain ⟨as, h⟩ := discard_eq_ok h
  obtain ⟨a, mid, -, h⟩ := bind_eq_ok_iff.1 h
  obtain ⟨as', last, hmany, hpure⟩ := bind_eq_ok_iff.1 h
  cases hpure
  exact refuses_of_many_eq_ok takes_gap hmany

theorem mild_gap0 : gap0.Mild := by
  refine (Mild.many (Mild.orElse (mild_span1 _) (Mild.orElse ?_ ?_))).discard
  · exact (((mild_literal _).orElse (mild_literal _)).bind fun _ s why h => by cases h).matched
  · exact ((mild_literal _).bind fun _ => (mild_upTo _).bind fun _ => mild_literal _).matched

/-! ### Keywords -/

theorem ledBy_letters (word : Text) : (letters word).LedBy [word] := by
  intro s hs
  have hword : s.agreesWith word = false := hs word List.mem_cons_self
  exact ⟨⟨s, []⟩, by simp [letters, hword]⟩

theorem ledBy_wholeWord (word : Text) : (wholeWord word).LedBy [word] :=
  (ledBy_letters word).bind _

theorem ledBy_keyword (word : String) : (keyword word).LedBy [word.toList] :=
  ledBy_wholeWord word.toList

theorem ledBy_keywords {phrase : String} {word : Text} {words : List Text}
    (h : Text.words phrase.toList = word :: words) : (keywords phrase).LedBy [word] := by
  rw [keywords, h]
  cases words with
  | nil => exact (ledBy_wholeWord word).discard.matched
  | cons v vs => exact ((ledBy_wholeWord word).bind _).matched

theorem mild_letters (word : Text) : (letters word).Mild := by
  intro s why h
  rw [letters] at h
  split at h
  · split at h <;> cases h
  · cases h

theorem mild_keyword (word : String) : (keyword word).Mild :=
  (mild_letters _).bind fun _ => (mild_satisfy _).absent.bind fun _ => mild_pure _

end Lexeme

/-- A text has the letters of a keyword, one for one. -/
def Text.Spells (t word : Text) : Prop :=
  t.agreesWith word = true ∧ t.length = word.length ∧ t.byteLength = word.byteLength

instance (t word : Text) : Decidable (t.Spells word) :=
  inferInstanceAs (Decidable (_ ∧ _ ∧ _))

/-- After the first of several parts each one comes with the separator in front. -/
theorem Text.joinWith_cons (sep t : Text) (ts : List Text) :
    joinWith sep (t :: ts) = t ++ ts.flatMap fun u => sep ++ u := by
  induction ts generalizing t with
  | nil => simp
  | cons u ts ih => rw [joinWith_cons_cons, ih, List.flatMap_cons, List.append_assoc,
      List.append_assoc]

theorem Text.agreesWith_append_right {t word : Text} (hlen : t.length = word.length)
    (rest : Text) : (t ++ rest).agreesWith word = t.agreesWith word := by
  induction t generalizing word with
  | nil =>
      cases word with
      | nil => cases rest <;> rfl
      | cons d w => cases hlen
  | cons c t ih =>
      cases word with
      | nil => cases hlen
      | cons d w =>
          have htail := ih (Nat.succ.inj hlen)
          rw [List.cons_append, Text.agreesWith, Text.agreesWith, htail]

namespace Lexeme

open Rule

/-- No word character stands in front, so that a word does not run on. -/
def WordEnds (s : Text) : Prop :=
  ∀ c ∈ s.head?, isWordChar c = false

variable {s t rest : Text}

theorem WordEnds.of_append {u : Text} (h : WordEnds (t ++ u)) : WordEnds t := by
  cases t with
  | nil => exact fun c hc => by cases hc
  | cons c t => exact h

theorem wordEnds_cons {c : Char} (h : isWordChar c = false) (s : Text) : WordEnds (c :: s) := by
  intro d hd
  cases hd
  exact h

theorem wordEnds_space (s : Text) : WordEnds (' ' :: s) :=
  wordEnds_cons (by decide) s

theorem letters_append {word : Text} (h : t.Spells word) (rest : Text) :
    letters word (t ++ rest) = .ok t rest := by
  obtain ⟨hagrees, hlen, hbytes⟩ := h
  have hsplit := Text.splitAtByte?_byteLength t rest
  rw [hbytes] at hsplit
  rw [letters, Text.agreesWith_append_right hlen, if_pos hagrees, hsplit]

theorem absent_wordChar (h : WordEnds rest) : absent (satisfy isWordChar) rest = .ok () rest := by
  have hrefuses : (satisfy isWordChar).Refuses rest := by
    cases rest with
    | nil => exact ⟨⟨[], []⟩, rfl⟩
    | cons c t => exact refuses_satisfy (h c rfl)
  exact hrefuses.absent

theorem wholeWord_append {word : Text} (h : t.Spells word) (hrest : WordEnds rest) :
    wholeWord word (t ++ rest) = .ok t rest := by
  rw [wholeWord, bind_of_ok (letters_append h rest), bind_of_ok (absent_wordChar hrest)]
  rfl

/-- A word that goes on is not the whole word. -/
theorem refuses_wholeWord_of_append {word : Text} (h : t.Spells word) {c : Char}
    (hc : isWordChar c = true) (rest : Text) : (wholeWord word).Refuses (t ++ c :: rest) := by
  have hchar : satisfy isWordChar (c :: rest) = .ok c rest := if_pos hc
  exact refuses_bind_of_ok (letters_append h _) ((refuses_absent_of_ok hchar).bind _)

/-- **A keyword is read in front of any text that does not run on.** -/
theorem keyword_append (word : String) (t : Text) (h : t.Spells word.toList)
    (hrest : WordEnds rest) : keyword word (t ++ rest) = .ok t rest :=
  wholeWord_append h hrest

/-- **A phrase of two keywords is read** with a space between them. -/
theorem keywords_append (phrase : String) {word word' : Text} (t t' : Text)
    (hphrase : Text.words phrase.toList = [word, word']) (h : t.Spells word)
    (h' : t'.Spells word') (hsolid : (t'.head?.any fun c => !isGapStart c) = true)
    (hrest : WordEnds rest) :
    keywords phrase (t ++ ' ' :: t' ++ rest) = .ok (t ++ ' ' :: t') rest := by
  refine matched_of_ok (a := ()) ?_
  have hgap : gap1 (' ' :: (t' ++ rest)) = .ok () (t' ++ rest) := by
    cases t' with
    | nil => cases hsolid
    | cons c t' => exact gap1_space (solid_of_head (by simpa using hsolid) _)
  rw [hphrase, wholeWords, List.append_assoc, List.cons_append,
    bind_of_ok (wholeWord_append h (wordEnds_space _)), bind_of_ok hgap, wholeWords, discard_apply,
    wholeWord_append h' hrest]

/-! ### What a word or a value stops in front of -/

/-- The characters that stand after a word, a name or a value in a written definition. -/
def stops : List Char :=
  [' ', ',', ')', '\n', '(']

/-- One of the characters that stand after a value is in front. -/
def Stops (s : Text) : Prop :=
  ∃ c t, s = c :: t ∧ c ∈ stops

theorem Stops.head {f : Char → Bool} (h : Stops s) (hf : stops.any f = false) :
    ∀ c ∈ s.head?, f c = false := by
  obtain ⟨d, t, rfl, hd⟩ := h
  intro c hc
  cases hc
  simpa using List.any_eq_false.1 hf _ hd

theorem Stops.wordEnds (h : Stops s) : WordEnds s :=
  h.head (by decide)

/-- No quote stands where a value stops. -/
theorem Stops.head_ne {q : Char} (h : Stops s) (hq : q ∉ stops) : ∀ c ∈ s.head?, c ≠ q := by
  obtain ⟨d, t, rfl, hd⟩ := h
  intro c hc
  cases hc
  rintro rfl
  exact hq hd

/-- After a gap there is something other than the parenthesis of a call. -/
def NoCall (s : Text) : Prop :=
  ∃ c t, gap0 s = .ok () (c :: t) ∧ c ≠ '('

/-! ### Punctuation -/

/-- A parenthesis with white space inside is read when what is inside of it is. -/
theorem parenthesized_append {α : Type} {inner : Rule α} {a : α} (w w' : Text)
    (hw : w.all isSpace = true) (hsolid : Solid s)
    (hinner : inner s = .ok a (w' ++ ')' :: rest)) (hw' : w'.all isSpace = true) :
    parenthesized inner ('(' :: (w ++ s)) = .ok a rest := by
  have hclose : Solid (')' :: rest) := solid_of_head (by decide) rest
  rw [parenthesized, bind_of_ok (char_cons '(' _), bind_of_ok (gap0_append hw hsolid),
    bind_of_ok hinner, bind_of_ok (gap0_append hw' hclose), bind_of_ok (char_cons ')' rest)]
  rfl

theorem comma_append {w : Text} (hw : w.all isSpace = true) (h : Solid s) :
    comma (',' :: (w ++ s)) = .ok () s := by
  rw [comma, bind_of_ok (gap0_cons (by decide) _), bind_of_ok (char_cons ',' _), gap0_append hw h]

/-- There is no comma where a gap ends at something else. -/
theorem refuses_comma {c : Char} (hgap : gap0 s = .ok () (c :: t)) (hc : c ≠ ',') :
    comma.Refuses s :=
  refuses_bind_of_ok hgap ((refuses_char hc).bind _)

/-- A comma or a closing parenthesis is in front. -/
def ItemEnds (s : Text) : Prop :=
  ∃ c t, s = c :: t ∧ (c = ',' ∨ c = ')')

theorem ItemEnds.stops (h : ItemEnds s) : Stops s := by
  obtain ⟨c, t, rfl, hc⟩ := h
  refine ⟨c, t, rfl, ?_⟩
  rcases hc with rfl | rfl <;> decide

theorem ItemEnds.solid (h : ItemEnds s) : Solid s := by
  obtain ⟨c, t, rfl, hc⟩ := h
  rcases hc with rfl | rfl <;> exact solid_of_head (by decide) t

theorem ItemEnds.noCall (h : ItemEnds s) : NoCall s := by
  have hgap := gap0_of_solid h.solid
  obtain ⟨c, t, rfl, hc⟩ := h
  refine ⟨c, t, hgap, ?_⟩
  rcases hc with rfl | rfl <;> decide

section Items

variable {item : Rule Text} {a : Text} {as : List Text}

/-- The items after the first one, each with a comma and a space in front. -/
theorem many_comma_append
    (hitem : ∀ t ∈ as, ∀ rest, ItemEnds rest → item (t ++ rest) = .ok t rest)
    (hsolid : ∀ t ∈ as, ∀ rest, Solid (t ++ rest)) (rest : Text) :
    ItemEnds (as.flatMap (fun t => [',', ' '] ++ t) ++ ')' :: rest) ∧
      Rule.many (comma *> item) (as.flatMap (fun t => [',', ' '] ++ t) ++ ')' :: rest) =
        .ok as (')' :: rest) := by
  induction as with
  | nil =>
      have hgap : gap0 (')' :: rest) = .ok () (')' :: rest) := gap0_cons (by decide) rest
      exact ⟨⟨')', rest, rfl, .inr rfl⟩, ((refuses_comma hgap (by decide)).bind _).many⟩
  | cons b bs ih =>
      obtain ⟨hends, hmany⟩ := ih (fun t ht => hitem t (List.mem_cons_of_mem b ht))
        fun t ht => hsolid t (List.mem_cons_of_mem b ht)
      have hb := hitem b List.mem_cons_self _ hends
      have hcomma := comma_append (w := [' ']) (by decide) (hsolid b List.mem_cons_self
        (bs.flatMap (fun t => [',', ' '] ++ t) ++ ')' :: rest))
      have hshape : (b :: bs).flatMap (fun t => [',', ' '] ++ t) ++ ')' :: rest =
          ',' :: ([' '] ++ (b ++ (bs.flatMap (fun t => [',', ' '] ++ t) ++ ')' :: rest))) := by
        simp
      refine ⟨⟨',', _, hshape, .inl rfl⟩, ?_⟩
      rw [hshape]
      refine many_eq_cons ((bind_of_ok hcomma _).trans hb) ?_ hmany
      simp only [List.length_cons, List.length_append]
      omega

/-- Items with commas between them are read up to the closing parenthesis. -/
theorem commaList_append
    (hitem : ∀ t ∈ a :: as, ∀ rest, ItemEnds rest → item (t ++ rest) = .ok t rest)
    (hsolid : ∀ t ∈ a :: as, ∀ rest, Solid (t ++ rest)) (rest : Text) :
    commaList item (Text.joinWith [',', ' '] (a :: as) ++ ')' :: rest) =
      .ok (a :: as) (')' :: rest) := by
  obtain ⟨hends, hmany⟩ := many_comma_append
    (fun t ht => hitem t (List.mem_cons_of_mem a ht))
    (fun t ht => hsolid t (List.mem_cons_of_mem a ht)) rest
  rw [Text.joinWith_cons, List.append_assoc, commaList, sepBy1,
    bind_of_ok (hitem a List.mem_cons_self _ hends), bind_of_ok hmany]
  rfl

end Items

/-! ### What is read as a word -/

/-- A letter of ASCII in lower case, the k apart, which has a second capital. -/
def isPlainLetter (d : Char) : Bool :=
  decide (d.toNat < 128) && d != 'k' && lowerChar d == [d]

theorem utf8Size_ascii {c : Char} (hc : c.toNat < 128) : c.utf8Size = 1 :=
  forall_ascii (P := fun c => c.utf8Size = 1) (by decide) hc

theorem ascii_of_isPlainLetter {c d : Char} (hd : isPlainLetter d = true)
    (h : lowerChar c = lowerChar d) : c.toNat < 128 ∧ lowerChar c = [d] := by
  simp only [isPlainLetter, Bool.and_eq_true, decide_eq_true_eq, bne_iff_ne, ne_eq,
    beq_iff_eq] at hd
  obtain ⟨⟨hascii, hk⟩, hlower⟩ := hd
  rw [hlower] at h
  exact ⟨ascii_of_lowerChar h hascii hk, h⟩

theorem utf8Size_of_isPlainLetter {d : Char} (hd : isPlainLetter d = true) : d.utf8Size = 1 :=
  utf8Size_ascii (ascii_of_isPlainLetter hd rfl).1

/-- The letters of a word without a k, in either case, have the size of the word. -/
theorem spells_of_map_lowerChar {word : Text} (hword : ∀ d ∈ word, isPlainLetter d = true)
    (h : t.map lowerChar = word.map fun d => [d]) : t.Spells word := by
  induction word generalizing t with
  | nil =>
      obtain rfl : t = [] := List.map_eq_nil_iff.1 h
      exact ⟨rfl, rfl, rfl⟩
  | cons d w ih =>
      cases t with
      | nil => cases h
      | cons c t =>
          rw [List.map_cons, List.map_cons, List.cons.injEq] at h
          obtain ⟨hagrees, hlen, hbytes⟩ := ih (fun e he => hword e (List.mem_cons_of_mem d he)) h.2
          have hd := hword d List.mem_cons_self
          have hlower : lowerChar d = [d] := (ascii_of_isPlainLetter hd rfl).2
          have hc : lowerChar c = lowerChar d := h.1.trans hlower.symm
          refine ⟨?_, congrArg (· + 1) hlen, ?_⟩
          · rw [Text.agreesWith, hc, hagrees]
            simp
          · rw [Text.byteLength_cons, Text.byteLength_cons, hbytes,
              utf8Size_ascii (ascii_of_isPlainLetter hd hc).1, utf8Size_of_isPlainLetter hd]

theorem map_lowerChar_of_letters {word : Text} (hword : ∀ d ∈ word, isPlainLetter d = true)
    (hagrees : s.agreesWith word = true)
    (hsplit : s.splitAtByte? word.byteLength = some (t, rest)) :
    t.map lowerChar = word.map fun d => [d] := by
  induction word generalizing s t with
  | nil =>
      rw [Text.byteLength_nil, Text.splitAtByte?_zero] at hsplit
      cases hsplit
      rfl
  | cons d w ih =>
      have hd := hword d List.mem_cons_self
      have hsize : Text.byteLength (d :: w) = Text.byteLength w + 1 := by
        rw [Text.byteLength_cons, utf8Size_of_isPlainLetter hd, Nat.add_comm]
      rw [hsize] at hsplit
      cases s with
      | nil => cases hsplit
      | cons c s =>
          rw [Text.agreesWith, Bool.and_eq_true, beq_iff_eq] at hagrees
          -- the letter of the text is one of ASCII too, so that its one byte is one character
          obtain ⟨hc, hlower⟩ := ascii_of_isPlainLetter hd hagrees.1
          have hone := utf8Size_ascii hc
          rw [Text.splitAtByte?, hone, if_pos (Nat.le_add_left 1 _), Nat.add_sub_cancel] at hsplit
          obtain ⟨⟨t', rest'⟩, htail, heq⟩ := Option.map_eq_some_iff.1 hsplit
          cases heq
          rw [List.map_cons, List.map_cons, hlower,
            ih (fun e he => hword e (List.mem_cons_of_mem d he)) hagrees.2 htail]

/-- A word without a k is read exactly where its letters stand in front, in either case. -/
theorem letters_eq_ok_iff {word : Text} (hword : word.all isPlainLetter = true) :
    letters word s = .ok t rest ↔ s = t ++ rest ∧ t.map lowerChar = word.map fun d => [d] := by
  constructor
  · intro h
    rw [letters] at h
    split at h
    · next hagrees =>
        cases hsplit : s.splitAtByte? word.byteLength with
        | none => rw [hsplit] at h; cases h
        | some parts =>
            obtain ⟨front, back⟩ := parts
            rw [hsplit] at h
            cases h
            exact ⟨(Text.append_of_splitAtByte? hsplit).symm,
              map_lowerChar_of_letters (List.all_eq_true.1 hword) hagrees hsplit⟩
    · cases h
  · rintro ⟨rfl, ht⟩
    exact letters_append (spells_of_map_lowerChar (List.all_eq_true.1 hword) ht) rest

/-- So is a keyword without a k, where no word character follows. -/
theorem keyword_eq_ok_iff {word : String} (hword : word.toList.all isPlainLetter = true) :
    keyword word s = .ok t rest ↔
      (s = t ++ rest ∧ t.map lowerChar = word.toList.map fun d => [d]) ∧ WordEnds rest := by
  constructor
  · intro h
    obtain ⟨t', mid, ht, h⟩ := bind_eq_ok_iff.1 h
    obtain ⟨u, mid', habsent, hpure⟩ := bind_eq_ok_iff.1 h
    cases hpure
    simp only [absent] at habsent
    cases hchar : satisfy isWordChar mid with
    | ok c u => rw [hchar] at habsent; cases habsent
    | mismatch why =>
        rw [hchar] at habsent
        cases habsent
        refine ⟨(letters_eq_ok_iff hword).1 ht, fun c hc => ?_⟩
        cases hc' : isWordChar c with
        | false => rfl
        | true =>
            cases rest with
            | nil => cases hc
            | cons d u =>
                cases hc
                simp [satisfy, hc'] at hchar
    | abort why => rw [hchar] at habsent; cases habsent
  · rintro ⟨⟨rfl, ht⟩, hrest⟩
    exact keyword_append word t (spells_of_map_lowerChar (List.all_eq_true.1 hword) ht) hrest

/-- The letters of a word of word characters are word characters. -/
theorem isWordChar_of_map_lowerChar {word : Text} (hplain : word.all isPlainLetter = true)
    (hword : word.all isWordChar = true) (h : t.map lowerChar = word.map fun d => [d]) :
    ∀ c ∈ t, isWordChar c = true := by
  intro c hc
  have hmem : lowerChar c ∈ word.map fun d => [d] := h ▸ List.mem_map_of_mem hc
  obtain ⟨d, hd, heq⟩ := List.mem_map.1 hmem
  have hplain := List.all_eq_true.1 hplain d hd
  have hd := List.all_eq_true.1 hword d hd
  have hlower : lowerChar d = [d] := (ascii_of_isPlainLetter hplain rfl).2
  have hascii := (ascii_of_isPlainLetter hplain (heq.symm.trans hlower.symm)).1
  have htoLower : c.toLower = d := by
    rw [lowerChar_ascii hascii] at heq
    simpa using heq.symm
  rw [← htoLower] at hd
  revert hd
  exact forall_ascii (P := fun c => isWordChar c.toLower = true → isWordChar c = true)
    (by decide) hascii

end Lexeme

end SchemaDelta
