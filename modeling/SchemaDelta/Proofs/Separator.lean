/-
**What keeps words apart.**

A comment goes on up to the end of its line or up to its closing mark.  A separator is a space, a
tab, half of a line end, or a comment that is closed: a block comment, or a line comment with its
line feed.  One or more of them make a gap, whatever they are and whatever the comments say, and
nothing else than the first solid text behind the gap is left of it.

Main definitions:

* `SchemaDelta.Lexeme.IsComment` — a comment in front of a text;
* `SchemaDelta.Lexeme.IsSeparator` — white space of one character, and closed comments;
* `SchemaDelta.Lexeme.IsGap` — one separator or several.

Main results:

* `SchemaDelta.Lexeme.comment_eq_ok_iff` — **a comment is read where one stands**, and nothing else
  is;
* `SchemaDelta.Lexeme.IsGap.gap0`, `SchemaDelta.Lexeme.IsGap.gap1` — **a gap is read** up to the
  first solid text behind it;
* `SchemaDelta.Lexeme.IsGap.append`, `SchemaDelta.Lexeme.isGap_of_spaces` — gaps in a row are a gap,
  and so is white space;
* `SchemaDelta.Lexeme.IsGap.exists_eq_cons` — the characters that a gap starts with.
-/

import SchemaDelta.Proofs.Exchange.Gap

set_option relaxedAutoImplicit false
set_option autoImplicit false

namespace SchemaDelta

/-- A mark that does not stand in a text is first found right behind it. -/
theorem Text.splitBefore?_closing {body : Text} (h : ¬ ['*', '/'] <:+: body) (rest : Text) :
    splitBefore? ['*', '/'] (body ++ '*' :: '/' :: rest) = some (body, '*' :: '/' :: rest) := by
  induction body with
  | nil => rfl
  | cons c body ih =>
      have hbody : ¬ ['*', '/'] <:+: body :=
        fun hin => h (hin.trans (List.suffix_cons c body).isInfix)
      have hprefix : ¬ (['*', '/'].isPrefixOf (c :: (body ++ '*' :: '/' :: rest)) = true) := by
        intro hprefix
        obtain ⟨t, ht⟩ := List.isPrefixOf_iff_prefix.1 hprefix
        -- the mark would stand in the text, or start with its last character
        cases body with
        | nil => cases ht
        | cons d body =>
            cases ht
            exact h ⟨[], body, rfl⟩
      rw [List.cons_append, splitBefore?, if_neg hprefix, ih hbody]
      rfl

/-- A mark that stands in a text is found there. -/
theorem Text.splitBefore?_of_infix {mark t : Text} (h : mark <:+: t) :
    ∃ front rest, splitBefore? mark t = some (front, mark ++ rest) := by
  induction t with
  | nil =>
    obtain rfl := List.infix_nil.1 h
    exact ⟨[], [], rfl⟩
  | cons c t ih =>
    by_cases hprefix : mark.isPrefixOf (c :: t) = true
    · obtain ⟨rest, hrest⟩ := List.isPrefixOf_iff_prefix.1 hprefix
      exact ⟨[], rest, by rw [splitBefore?, if_pos hprefix, hrest]⟩
    · rcases List.infix_cons_iff.1 h with hmark | hmark
      · exact absurd (List.isPrefixOf_iff_prefix.2 hmark) hprefix
      · obtain ⟨front, rest, hsplit⟩ := ih hmark
        exact ⟨c :: front, rest, by rw [splitBefore?, if_neg hprefix, hsplit]; rfl⟩

/-- In front of its first occurrence a mark does not occur. -/
theorem Text.not_infix_of_splitBefore? {mark t front rest : Text} (hne : mark ≠ [])
    (h : splitBefore? mark t = some (front, rest)) : ¬ mark <:+: front := by
  induction t generalizing front with
  | nil =>
      rw [splitBefore?] at h
      split at h <;> cases h
      exact fun hin => hne (List.infix_nil.1 hin)
  | cons c t ih =>
      rw [splitBefore?] at h
      split at h
      · cases h
        exact fun hin => hne (List.infix_nil.1 hin)
      · next hprefix =>
        obtain ⟨⟨front', rest'⟩, hparts, heq⟩ := Option.map_eq_some_iff.1 h
        cases heq
        have ht := Text.append_of_splitBefore? hparts
        intro hin
        rcases List.infix_cons_iff.1 hin with hmark | hmark
        · refine hprefix (List.isPrefixOf_iff_prefix.2 (hmark.trans ⟨rest', ?_⟩))
          rw [List.cons_append, ht]
        · exact ih hparts hmark

namespace Lexeme

open Rule

/-! ### Comments -/

/-- A comment in front of the text `rest`: one that goes on up to the end of its line, which may be
the end of the text, or one up to its closing mark. -/
inductive IsComment : Text → Text → Prop where
  | hash {body rest : Text} (hbody : '\n' ∉ body) (hrest : ∀ c ∈ rest.head?, c = '\n') :
      IsComment ('#' :: body) rest
  | dashes {body rest : Text} (hbody : '\n' ∉ body) (hrest : ∀ c ∈ rest.head?, c = '\n') :
      IsComment ('-' :: '-' :: body) rest
  | block {body rest : Text} (hbody : ¬ ['*', '/'] <:+: body) :
      IsComment ('/' :: '*' :: (body ++ ['*', '/'])) rest

theorem lineComment_append {mark body rest : Text}
    (hmark : ∀ s, (literal "#" <|> literal "--") (mark ++ s) = .ok mark s) (hbody : '\n' ∉ body)
    (hrest : ∀ c ∈ rest.head?, c = '\n') :
    lineComment (mark ++ body ++ rest) = .ok (mark ++ body) rest := by
  have hline : ∀ d ∈ body, (d != '\n') = true := by
    intro d hd
    rw [bne_iff_ne]
    rintro rfl
    exact hbody hd
  have hspan : span (fun d => d != '\n') (body ++ rest) = .ok body rest := by
    rw [span, List.takeWhile_append_of_pos hline, List.dropWhile_append_of_pos hline]
    cases rest with
    | nil => simp
    | cons c rest =>
        obtain rfl : c = '\n' := hrest c rfl
        simp
  refine matched_of_ok (a := body) ?_
  rw [List.append_assoc, bind_of_ok (hmark _), hspan]

theorem literal_hash (s : Text) : (literal "#" <|> literal "--") (['#'] ++ s) = .ok ['#'] s :=
  orElse_of_ok (literal_append "#" s) _

theorem literal_dashes (s : Text) :
    (literal "#" <|> literal "--") (['-', '-'] ++ s) = .ok ['-', '-'] s := by
  have hhash : (literal "#").Refuses (['-', '-'] ++ s) := refuses_literal rfl
  exact (hhash.orElse_apply _).trans (literal_append "--" s)

theorem blockComment_append {body : Text} (hbody : ¬ ['*', '/'] <:+: body) (rest : Text) :
    blockComment ('/' :: '*' :: (body ++ ['*', '/']) ++ rest) =
      .ok ('/' :: '*' :: (body ++ ['*', '/'])) rest := by
  have hopen : literal "/*" ('/' :: '*' :: (body ++ '*' :: '/' :: rest)) =
      .ok ['/', '*'] (body ++ '*' :: '/' :: rest) :=
    literal_append "/*" _
  have hinside : upTo "*/" (body ++ '*' :: '/' :: rest) = .ok body ('*' :: '/' :: rest) := by
    have hsplit := Text.splitBefore?_closing hbody rest
    have hmark : "*/".toList = ['*', '/'] := rfl
    rw [upTo, hmark, hsplit]
  have hclose : literal "*/" ('*' :: '/' :: rest) = .ok ['*', '/'] rest := literal_append "*/" rest
  have hshape : '/' :: '*' :: (body ++ ['*', '/']) ++ rest =
      '/' :: '*' :: (body ++ '*' :: '/' :: rest) := by
    simp
  refine matched_of_ok (a := ['*', '/']) ?_
  rw [hshape, bind_of_ok hopen, bind_of_ok hinside, hclose]

theorem literal_eq_ok {word : String} {s t rest : Text} (h : literal word s = .ok t rest) :
    t = word.toList ∧ s = word.toList ++ rest := by
  rw [literal] at h
  split at h
  · next hprefix =>
    obtain ⟨u, rfl⟩ := List.isPrefixOf_iff_prefix.1 hprefix
    rw [List.drop_left] at h
    cases h
    exact ⟨rfl, rfl⟩
  · cases h

/-- A text goes on up to its first line feed. -/
theorem line_cut (s : Text) :
    s = s.takeWhile (· != '\n') ++ s.dropWhile (· != '\n') ∧ '\n' ∉ s.takeWhile (· != '\n') ∧
      ∀ c ∈ (s.dropWhile (· != '\n')).head?, c = '\n' := by
  refine ⟨List.takeWhile_append_dropWhile.symm, fun hmem => ?_, fun c hc => ?_⟩
  · simpa using List.mem_takeWhile_imp hmem
  · have hnot := List.head?_dropWhile_not (· != '\n') s
    rw [Option.mem_def.1 hc] at hnot
    simpa using hnot

/-- What is read as a line comment has no line feed, and one follows or nothing does. -/
theorem isComment_of_lineComment {s t rest : Text} (h : lineComment s = .ok t rest) :
    s = t ++ rest ∧ IsComment t rest := by
  obtain ⟨body, hread, ht⟩ := matched_eq_ok h
  obtain ⟨mark, m, hmark, hspan⟩ := bind_eq_ok_iff.1 hread
  cases hspan
  obtain ⟨hm, hbody, hrest⟩ := line_cut m
  rcases orElse_eq_ok hmark with hmark | ⟨-, hmark⟩
  · obtain ⟨-, rfl⟩ := literal_eq_ok hmark
    have hs : "#".toList ++ m = '#' :: m.takeWhile (· != '\n') ++ m.dropWhile (· != '\n') :=
      congrArg ('#' :: ·) hm
    rw [take_of_append hs] at ht
    exact ⟨ht ▸ hs, ht ▸ .hash hbody hrest⟩
  · obtain ⟨-, rfl⟩ := literal_eq_ok hmark
    have hs : "--".toList ++ m =
        '-' :: '-' :: m.takeWhile (· != '\n') ++ m.dropWhile (· != '\n') :=
      congrArg ('-' :: '-' :: ·) hm
    rw [take_of_append hs] at ht
    exact ⟨ht ▸ hs, ht ▸ .dashes hbody hrest⟩

/-- What is read as a block comment has its closing mark at the end only. -/
theorem isComment_of_blockComment {s t rest : Text} (h : blockComment s = .ok t rest) :
    s = t ++ rest ∧ IsComment t rest := by
  obtain ⟨close, hread, ht⟩ := matched_eq_ok h
  obtain ⟨mark, m, hmark, hread⟩ := bind_eq_ok_iff.1 hread
  obtain ⟨body, m', hbody, hclose⟩ := bind_eq_ok_iff.1 hread
  obtain ⟨-, rfl⟩ := literal_eq_ok hmark
  obtain ⟨-, rfl⟩ := literal_eq_ok hclose
  have hsplit := upTo_eq_ok hbody
  have hs : "/*".toList ++ m = '/' :: '*' :: (body ++ ['*', '/']) ++ rest := by
    rw [← Text.append_of_splitBefore? hsplit]
    simp
  rw [take_of_append hs] at ht
  exact ⟨ht ▸ hs, ht ▸ .block (Text.not_infix_of_splitBefore? (by decide) hsplit)⟩

/-- **A comment is read where one stands**, and nothing else is. -/
theorem comment_eq_ok_iff {s t rest : Text} :
    comment s = .ok t rest ↔ s = t ++ rest ∧ IsComment t rest := by
  constructor
  · intro h
    rcases orElse_eq_ok h with h | ⟨-, h⟩
    · exact isComment_of_lineComment h
    · exact isComment_of_blockComment h
  · rintro ⟨rfl, h⟩
    cases h with
    | hash hbody hrest => exact orElse_of_ok (lineComment_append literal_hash hbody hrest) _
    | dashes hbody hrest => exact orElse_of_ok (lineComment_append literal_dashes hbody hrest) _
    | @block body rest hbody =>
        have hline : lineComment.Refuses ('/' :: '*' :: (body ++ ['*', '/']) ++ rest) := by
          have hhash : (literal "#").Refuses ('/' :: '*' :: (body ++ ['*', '/']) ++ rest) :=
            refuses_literal rfl
          have hdashes : (literal "--").Refuses ('/' :: '*' :: (body ++ ['*', '/']) ++ rest) :=
            refuses_literal rfl
          exact ((hhash.orElse hdashes).bind _).matched
        exact (hline.orElse_apply blockComment).trans (blockComment_append hbody rest)

theorem IsComment.comment_append {t rest : Text} (h : IsComment t rest) :
    comment (t ++ rest) = .ok t rest :=
  comment_eq_ok_iff.2 ⟨rfl, h⟩

/-! ### Separators -/

/-- White space of one character, or a comment with its end. -/
inductive IsSeparator : Text → Prop where
  | space {c : Char} (hc : isSpace c = true) : IsSeparator [c]
  | block {body : Text} (hbody : ¬ ['*', '/'] <:+: body) :
      IsSeparator ('/' :: '*' :: (body ++ ['*', '/']))
  | hash {body : Text} (hbody : '\n' ∉ body) : IsSeparator ('#' :: (body ++ ['\n']))
  | dashes {body : Text} (hbody : '\n' ∉ body) : IsSeparator ('-' :: '-' :: (body ++ ['\n']))

/-- One separator or several. -/
inductive IsGap : Text → Prop where
  | single {p : Text} (hp : IsSeparator p) : IsGap p
  | cons {p g : Text} (hp : IsSeparator p) (hg : IsGap g) : IsGap (p ++ g)

variable {s t p g g' w : Text}

theorem IsGap.append (h : IsGap g) (h' : IsGap g') : IsGap (g ++ g') := by
  induction h with
  | single hp => exact .cons hp h'
  | cons hp _ ih =>
      rw [List.append_assoc]
      exact .cons hp ih

theorem isGap_of_spaces (hne : w ≠ []) (hw : w.all isSpace = true) : IsGap w := by
  induction w with
  | nil => exact absurd rfl hne
  | cons c w ih =>
      rw [List.all_cons, Bool.and_eq_true] at hw
      by_cases hnil : w = []
      · subst hnil
        exact .single (.space hw.1)
      · exact .cons (.space hw.1) (ih hnil hw.2)

theorem isGapStart_of_isSpace {c : Char} (hc : isSpace c = true) : isGapStart c = true := by
  simp [isGapStart, hc]

/-- A separator starts with white space or with the mark of a comment. -/
theorem IsSeparator.exists_eq_cons (h : IsSeparator p) :
    ∃ c t, p = c :: t ∧ isGapStart c = true := by
  cases h with
  | space hc => exact ⟨_, [], rfl, isGapStart_of_isSpace hc⟩
  | block => exact ⟨'/', _, rfl, by decide⟩
  | hash => exact ⟨'#', _, rfl, by decide⟩
  | dashes => exact ⟨'-', _, rfl, by decide⟩

theorem IsGap.exists_eq_cons (h : IsGap g) : ∃ c t, g = c :: t ∧ isGapStart c = true := by
  cases h with
  | single hp => exact hp.exists_eq_cons
  | cons hp =>
      obtain ⟨c, t, rfl, hc⟩ := hp.exists_eq_cons
      exact ⟨c, _, rfl, hc⟩

/-- A gap ends the word in front of it. -/
theorem wordEnds_gap (h : IsGap g) (s : Text) : WordEnds (g ++ s) := by
  obtain ⟨c, t, rfl, hc⟩ := h.exists_eq_cons
  exact wordEnds_cons (isWordChar_of_isGapStart hc) (t ++ s)

/-! ### Gaps are read -/

theorem gap_of_comment (h : comment s = .ok p t) : (spaces <|> comment) s = .ok p t := by
  obtain ⟨c, u, rfl, ⟨-, hc⟩, -⟩ := starts_comment s p t h
  exact (Refuses.orElse_apply (p := spaces) (refuses_span1 hc) comment).trans h

theorem gap0_of_gap (h : (spaces <|> comment) s = .ok p t) :
    Lexeme.gap0 s = Lexeme.gap0 t := by
  rw [Lexeme.gap0, discard_apply, discard_apply, many_of_ok h (takes_gap s p t h), bind_apply]
  cases many (spaces <|> comment) t <;> rfl

/-- White space in front of a gap is no matter. -/
theorem gap0_dropWhile (s : Text) : Lexeme.gap0 (s.dropWhile isSpace) = Lexeme.gap0 s := by
  cases s with
  | nil => rfl
  | cons c s =>
    by_cases hc : isSpace c = true
    · refine (gap0_of_gap (p := (c :: s).takeWhile isSpace) (orElse_of_ok ?_ _)).symm
      exact span1_eq_ok_iff.2 ⟨by rw [List.takeWhile_cons_of_pos hc]; exact nofun, rfl, rfl⟩
    · rw [List.dropWhile_cons_of_neg hc]

/-- What a gap leaves is what the gap behind its first piece leaves. -/
theorem gaps_of_gap (h : (spaces <|> comment) s = .ok p t) :
    Lexeme.gap0 s = Lexeme.gap0 t ∧ Lexeme.gap1 s = Lexeme.gap0 t := by
  obtain ⟨m, hm⟩ := exists_gap0 t
  obtain ⟨as, hmany⟩ := discard_eq_ok hm
  have hone : Lexeme.gap1 s = .ok () m := by
    rw [Lexeme.gap1, discard_apply, many1, bind_of_ok h, bind_of_ok hmany]
    rfl
  exact ⟨gap0_of_gap h, hone.trans hm.symm⟩

theorem gaps_space {c : Char} (hc : isSpace c = true) (s : Text) :
    Lexeme.gap0 (c :: s) = Lexeme.gap0 s ∧ Lexeme.gap1 (c :: s) = Lexeme.gap0 s := by
  have hspaces : spaces (c :: s) = .ok (c :: s.takeWhile isSpace) (s.dropWhile isSpace) := if_pos hc
  have h := gaps_of_gap (orElse_of_ok hspaces comment)
  rwa [gap0_dropWhile] at h

/-- A line comment is read up to its line feed, which is white space. -/
theorem gaps_lineComment {mark body : Text}
    (hmark : ∀ s, (literal "#" <|> literal "--") (mark ++ s) = .ok mark s) (hbody : '\n' ∉ body)
    (s : Text) : Lexeme.gap0 (mark ++ (body ++ '\n' :: s)) = Lexeme.gap0 s ∧
      Lexeme.gap1 (mark ++ (body ++ '\n' :: s)) = Lexeme.gap0 s := by
  have hcomment : lineComment (mark ++ (body ++ '\n' :: s)) = .ok (mark ++ body) ('\n' :: s) := by
    rw [← List.append_assoc]
    exact lineComment_append hmark hbody (by simp)
  have h := gaps_of_gap (gap_of_comment (orElse_of_ok hcomment blockComment))
  rwa [(gaps_space (by decide) s).1] at h

/-- A block comment is read up to its closing mark. -/
theorem gaps_blockComment {body : Text} (hbody : ¬ ['*', '/'] <:+: body) (s : Text) :
    Lexeme.gap0 ('/' :: '*' :: (body ++ '*' :: '/' :: s)) = Lexeme.gap0 s ∧
      Lexeme.gap1 ('/' :: '*' :: (body ++ '*' :: '/' :: s)) = Lexeme.gap0 s := by
  have hshape : '/' :: '*' :: (body ++ '*' :: '/' :: s) =
      '/' :: '*' :: (body ++ ['*', '/']) ++ s := by
    simp
  rw [hshape]
  exact gaps_of_gap (gap_of_comment (IsComment.block hbody).comment_append)

/-- What a separator leaves is what the gap behind it leaves. -/
theorem IsSeparator.gaps (h : IsSeparator p) (s : Text) :
    Lexeme.gap0 (p ++ s) = Lexeme.gap0 s ∧ Lexeme.gap1 (p ++ s) = Lexeme.gap0 s := by
  cases h with
  | space hc => exact gaps_space hc s
  | block hbody => simpa using gaps_blockComment hbody s
  | hash hbody => simpa using gaps_lineComment literal_hash hbody s
  | dashes hbody => simpa using gaps_lineComment literal_dashes hbody s

/-- Nor does a gap in front of another gap make a difference. -/
theorem IsGap.gap0_append (h : IsGap g) (s : Text) : Lexeme.gap0 (g ++ s) = Lexeme.gap0 s := by
  induction h with
  | single hp => exact (hp.gaps s).1
  | cons hp _ ih => rw [List.append_assoc, (hp.gaps _).1, ih]

/-- **A gap that has to be there is read** up to the first solid text behind it. -/
theorem IsGap.gap1 (h : IsGap g) (hs : Solid s) : Lexeme.gap1 (g ++ s) = .ok () s := by
  cases h with
  | single hp => rw [(hp.gaps s).2, gap0_of_solid hs]
  | cons hp hg => rw [List.append_assoc, (hp.gaps _).2, hg.gap0_append, gap0_of_solid hs]

/-- **So is one that may be left out.** -/
theorem IsGap.gap0 (h : IsGap g) (hs : Solid s) : Lexeme.gap0 (g ++ s) = .ok () s := by
  rw [h.gap0_append, gap0_of_solid hs]

end Lexeme

end SchemaDelta
