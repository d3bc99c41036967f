/-
**Where text that is kept as it is written ends.**

The rest of a statement that is not looked into is cut into tiles: comments, quoted texts with their
closing quote, and single characters that belong to neither.  Every text has such a row of tiles in
front, up to a place where no tile fits: its end, a semicolon, or a quote that is never closed.  The
rule for such a rest reads exactly this row, so that a semicolon it passes over stands inside of a
comment or of a quoted text, and the statement ends behind the row or not at all.

Main definitions:

* `SchemaDelta.Lexeme.Tile`, `SchemaDelta.Lexeme.Tile.Fits` — the pieces, and what they are in front
  of the text behind them;
* `SchemaDelta.Lexeme.Tiled` — a row of tiles in front of a text;
* `SchemaDelta.Lexeme.Halts` — no tile fits;
* `SchemaDelta.Lexeme.Encloses` — a place in a row lies inside of a comment or of a quoted text.

Main results:

* `SchemaDelta.Lexeme.exists_tiled` — every text starts with a row of tiles up to such a place;
* `SchemaDelta.Lexeme.verbatim_eq_ok_iff` — **a row is read up to a place where no tile fits**, and
  nothing else is;
* `SchemaDelta.Lexeme.Tiled.encloses` — a semicolon in a row is inside of a comment or of a quoted
  text;
* `SchemaDelta.Lexeme.verbatim_tiled` — **every text is read up to where the row ends**, and the
  statement ends there if a semicolon follows.
-/

import SchemaDelta.Proofs.Exchange.Verbatim
import SchemaDelta.Proofs.Separator

set_option relaxedAutoImplicit false
set_option autoImplicit false

namespace SchemaDelta.Lexeme

open Rule

/-! ### Tiles -/

/-- A piece of a text that is kept as it is written. -/
inductive Tile where
  | comment (text : Text)
  /-- A text between two quotes. -/
  | quoted (quote : Char) (body : Text)
  /-- A character that belongs to no comment and to no quoted text. -/
  | plain (c : Char)
  deriving Repr, DecidableEq

/-- What is written for a tile. -/
def Tile.text : Tile → Text
  | .comment text => text
  | .quoted quote body => quote :: (body ++ [quote])
  | .plain c => [c]

/-- What is written for a row of tiles. -/
def Tile.texts (tiles : List Tile) : Text :=
  tiles.flatMap Tile.text

/-- A character in front of the text `rest` neither ends a statement nor opens a quoted text or a
comment. -/
structure StandsAlone (c : Char) (rest : Text) : Prop where
  ends : c ≠ ';'
  quote : Text.isNameQuote c = false
  hash : c ≠ '#'
  dashes : c = '-' → ∀ d ∈ rest.head?, d ≠ '-'
  /-- A slash opens no block comment that is closed. -/
  block : c = '/' → ∀ body last, rest ≠ '*' :: (body ++ '*' :: '/' :: last)

/-- The tile is read as such in front of the text `rest`. -/
def Tile.Fits : Tile → Text → Prop
  | .comment text, rest => IsComment text rest
  | .quoted quote body, rest =>
      Text.isNameQuote quote = true ∧
        quotedBody quote (quote :: (body ++ [quote]) ++ rest) = .ok body rest
  | .plain c, rest => StandsAlone c rest

/-- The tiles stand in a row in front of the text `rest`, and each fits what stands behind it. -/
inductive Tiled : List Tile → Text → Prop where
  | nil {rest : Text} : Tiled [] rest
  | cons {tile : Tile} {tiles : List Tile} {rest : Text}
      (htile : tile.Fits (Tile.texts tiles ++ rest)) (htiles : Tiled tiles rest) :
      Tiled (tile :: tiles) rest

/-- The places where no tile fits. -/
inductive Halts : Text → Prop where
  | nil : Halts []
  | semicolon (t : Text) : Halts (';' :: t)
  /-- A quote that is never closed. -/
  | unclosed {q : Char} {t : Text} (hquote : Text.isNameQuote q = true)
      (hopen : (quotedBody q).Refuses (q :: t)) : Halts (q :: t)

/-- The place behind `front` in a row of tiles lies inside of a comment or of a quoted text. -/
def Encloses (tiles : List Tile) (front : Text) : Prop :=
  ∃ before tile after inner, tiles = before ++ tile :: after ∧ (∀ c, tile ≠ .plain c) ∧
    front = Tile.texts before ++ inner ∧ inner.length < tile.text.length

variable {s t rest last : Text} {tile : Tile} {tiles : List Tile}

@[simp] theorem Tile.texts_nil : Tile.texts [] = [] := rfl

@[simp] theorem Tile.texts_cons (tile : Tile) (tiles : List Tile) :
    Tile.texts (tile :: tiles) = tile.text ++ Tile.texts tiles := rfl

theorem IsComment.ne_nil (h : IsComment t rest) : t ≠ [] := by
  cases h <;> exact List.cons_ne_nil _ _

theorem Tile.Fits.ne_nil (h : tile.Fits rest) : tile.text ≠ [] := by
  cases tile with
  | comment text => exact IsComment.ne_nil h
  | quoted quote body => exact List.cons_ne_nil _ _
  | plain c => exact List.cons_ne_nil _ _

/-! ### A row is read -/

theorem StandsAlone.refuses_comment {c : Char} (h : StandsAlone c rest) :
    comment.Refuses (c :: rest) := by
  refine mild_comment.refuses fun t last hread => ?_
  obtain ⟨hs, hcomment⟩ := comment_eq_ok_iff.1 hread
  cases hcomment with
  | hash => cases hs; exact h.hash rfl
  | dashes => cases hs; exact h.dashes rfl '-' rfl rfl
  | @block body =>
      cases hs
      exact h.block rfl body last (by simp)

/-- A character of its own is one piece, or belongs to one with the plain characters around it. -/
theorem Reaches.alone {c : Char} (h : StandsAlone c s) (hs : Reaches s last) :
    Reaches (c :: s) last := by
  by_cases hplain : isPlain c = true
  · exact hs.plain (t := [c]) (by simpa using hplain)
  · have hc : c = '-' ∨ c = '/' := by
      have hquote := h.quote
      simp only [Text.isNameQuote, Bool.or_eq_false_iff, beq_eq_false_iff_ne] at hquote
      simpa [isPlain, h.ends, h.hash, hquote, or_iff_not_imp_left] using hplain
    have hspan : (Functor.discard (span1 isPlain)).Refuses (c :: s) :=
      (refuses_span1 (by simpa using hplain)).discard
    refine Reaches.step (v := ()) ?_ (Nat.lt_succ_self _) hs
    rw [firstOf_verbatimPieces c s h.refuses_comment h.quote, firstOf_cons_cons,
      hspan.orElse_apply]
    rcases hc with rfl | rfl <;> rfl

theorem Reaches.comment (h : IsComment t s) (hs : Reaches s last) : Reaches (t ++ s) last := by
  have hpiece : firstOf verbatimPieces (t ++ s) = .ok () s :=
    orElse_of_ok (by rw [discard_apply, h.comment_append]) _
  refine Reaches.step hpiece ?_ hs
  rw [List.length_append]
  exact Nat.lt_add_of_pos_left (List.length_pos_iff.2 h.ne_nil)

theorem Tile.Fits.reaches (h : tile.Fits s) (hs : Reaches s last) :
    Reaches (tile.text ++ s) last := by
  cases tile with
  | comment text => exact Reaches.comment h hs
  | quoted quote body => exact hs.quoted h.1 (quotedBody_eq_ok h.2).2
  | plain c => exact Reaches.alone h hs

theorem Tiled.reaches (h : Tiled tiles rest) (hrest : Reaches rest last) :
    Reaches (Tile.texts tiles ++ rest) last := by
  induction h with
  | nil => exact hrest
  | cons htile _ ih =>
      rw [Tile.texts_cons, List.append_assoc]
      exact htile.reaches (ih hrest)

/-- No piece is read where no tile fits. -/
theorem Halts.refuses (h : Halts s) : (firstOf verbatimPieces).Refuses s := by
  cases h with
  | nil => exact ⟨_, rfl⟩
  | semicolon t => exact refuses_verbatimPieces t
  | @unclosed q t hquote hopen =>
      have hplain : isPlain q = false := by
        cases hplain : isPlain q with
        | false => rfl
        | true => rw [Text.isNameQuote_of_any (by decide) hplain] at hquote; cases hquote
      have hgap : isGapStart q = false := by
        simp only [Text.isNameQuote, Bool.or_eq_true, beq_iff_eq] at hquote
        rcases hquote with (rfl | rfl) | rfl <;> decide
      have hdash : (oneOf "-/").Refuses (q :: t) := by
        simp only [Text.isNameQuote, Bool.or_eq_true, beq_iff_eq] at hquote
        rcases hquote with (rfl | rfl) | rfl <;> exact refuses_satisfy (by decide)
      have hbody : ∀ c : Char, (quotedBody c).Refuses (q :: t) := by
        intro c
        by_cases hc : q = c
        · exact hc ▸ hopen
        · exact refuses_quotedBody hc t
      refine refuses_firstOf fun p hp => ?_
      simp only [verbatimPieces, List.mem_cons, List.not_mem_nil, or_false] at hp
      rcases hp with rfl | rfl | rfl | rfl | rfl | rfl
      · exact (refuses_comment_of_head hgap t).discard
      · exact (hbody _).discard
      · exact (hbody _).discard
      · exact (hbody _).discard
      · exact (refuses_span1 hplain).discard
      · exact hdash.discard

/-! ### Every text starts with a row -/

/-- A block comment that is closed somewhere is a comment up to the first closing mark. -/
theorem exists_blockComment (body last : Text) :
    ∃ t u, IsComment t u ∧ '/' :: '*' :: (body ++ '*' :: '/' :: last) = t ++ u := by
  have hmark : ['*', '/'] <:+: body ++ '*' :: '/' :: last := ⟨body, last, by simp⟩
  obtain ⟨front, u, hsplit⟩ := Text.splitBefore?_of_infix hmark
  refine ⟨_, u, .block (Text.not_infix_of_splitBefore? nofun hsplit), ?_⟩
  simp [← Text.append_of_splitBefore? hsplit]

/-- Where no comment is read, none can be opened. -/
theorem standsAlone_of_refuses {c : Char} (hends : c ≠ ';') (hquote : Text.isNameQuote c = false)
    (h : comment.Refuses (c :: rest)) : StandsAlone c rest := by
  have hnone : ∀ {t u}, IsComment t u → c :: rest ≠ t ++ u := by
    intro t u hcomment heq
    exact h.ne_ok (comment_eq_ok_iff.2 ⟨heq, hcomment⟩)
  refine ⟨hends, hquote, ?_, ?_, ?_⟩
  · rintro rfl
    obtain ⟨hs, hbody, hline⟩ := line_cut rest
    exact hnone (.hash hbody hline) (congrArg ('#' :: ·) hs)
  · rintro rfl d hd rfl
    obtain ⟨m, rfl⟩ : ∃ m, rest = '-' :: m := List.head?_eq_some_iff.1 hd
    obtain ⟨hs, hbody, hline⟩ := line_cut m
    exact hnone (.dashes hbody hline) (congrArg ('-' :: '-' :: ·) hs)
  · rintro rfl body last rfl
    obtain ⟨t, u, hcomment, heq⟩ := exists_blockComment body last
    exact hnone hcomment heq

/-- A tile fits in front of every text, if it is not one of the places where none does. -/
theorem halts_or_exists_tile (s : Text) :
    Halts s ∨ ∃ (tile : Tile) (u : Text), tile.Fits u ∧ s = tile.text ++ u := by
  cases s with
  | nil => exact .inl .nil
  | cons c t =>
      by_cases hends : c = ';'
      · subst hends
        exact .inl (.semicolon t)
      by_cases hquote : Text.isNameQuote c = true
      · by_cases hopen : (quotedBody c).Refuses (c :: t)
        · exact .inl (.unclosed hquote hopen)
        · obtain ⟨body, u, hbody⟩ : ∃ body u, quotedBody c (c :: t) = .ok body u := by
            by_contra hnone
            exact hopen ((mild_quotedBody c).refuses fun body u h => hnone ⟨body, u, h⟩)
          obtain ⟨hs, -⟩ := quotedBody_eq_ok hbody
          exact .inr ⟨.quoted c body, u, ⟨hquote, hs ▸ hbody⟩, hs⟩
      · by_cases hcomment : comment.Refuses (c :: t)
        · have hquote := Bool.eq_false_iff.2 hquote
          exact .inr ⟨.plain c, t, standsAlone_of_refuses hends hquote hcomment, rfl⟩
        · obtain ⟨text, u, htext⟩ : ∃ text u, comment (c :: t) = .ok text u := by
            by_contra hnone
            exact hcomment (mild_comment.refuses fun text u h => hnone ⟨text, u, h⟩)
          obtain ⟨hs, hfits⟩ := comment_eq_ok_iff.1 htext
          exact .inr ⟨.comment text, u, hfits, hs⟩

/-- **Every text starts with a row of tiles** up to a place where none fits. -/
theorem exists_tiled (s : Text) :
    ∃ tiles rest, Tiled tiles rest ∧ Halts rest ∧ s = Tile.texts tiles ++ rest := by
  rcases halts_or_exists_tile s with hs | ⟨tile, u, htile, hs⟩
  · exact ⟨[], s, .nil, hs, rfl⟩
  · have hlt : u.length < s.length := by
      rw [hs, List.length_append]
      exact Nat.lt_add_of_pos_left (List.length_pos_iff.2 htile.ne_nil)
    obtain ⟨tiles, rest, htiles, hrest, hu⟩ := exists_tiled u
    refine ⟨tile :: tiles, rest, .cons (hu ▸ htile) htiles, hrest, ?_⟩
    rw [Tile.texts_cons, List.append_assoc, ← hu, hs]
termination_by s.length

/-- **A row of tiles is read** up to a place where none fits, and nothing else is. -/
theorem verbatim_eq_ok_iff : verbatim s = .ok t rest ↔
    ∃ tiles, Tiled tiles rest ∧ Halts rest ∧ t = Tile.texts tiles ∧ s = t ++ rest := by
  have hreads : ∀ {tiles rest}, Tiled tiles rest → Halts rest →
      verbatim (Tile.texts tiles ++ rest) = .ok (Tile.texts tiles) rest := by
    intro tiles rest htiles hrest
    obtain ⟨us, hus⟩ := htiles.reaches ⟨[], hrest.refuses.many⟩
    exact matched_of_ok hus
  constructor
  · intro h
    obtain ⟨tiles, u, htiles, hu, rfl⟩ := exists_tiled s
    cases (hreads htiles hu).symm.trans h
    exact ⟨tiles, htiles, hu, rfl, rfl⟩
  · rintro ⟨tiles, htiles, hrest, rfl, rfl⟩
    exact hreads htiles hrest

/-! ### Semicolons -/

theorem Encloses.cons {front : Text} (h : Encloses tiles front) (tile : Tile) :
    Encloses (tile :: tiles) (tile.text ++ front) := by
  obtain ⟨before, inside, after, inner, rfl, hspan, rfl, hlt⟩ := h
  exact ⟨tile :: before, inside, after, inner, rfl, hspan, by simp, hlt⟩

/-- A semicolon in a row of tiles stands inside of a comment or of a quoted text. -/
theorem Tiled.encloses (h : Tiled tiles rest) {front back : Text}
    (hsplit : Tile.texts tiles = front ++ ';' :: back) : Encloses tiles front := by
  induction h generalizing front with
  | nil => exact absurd hsplit.symm (by simp)
  | @cons tile tiles rest htile _ ih =>
      rw [Tile.texts_cons] at hsplit
      -- the semicolon belongs to the first tile, or to the row behind it
      rcases List.append_eq_append_iff.1 hsplit with ⟨front', rfl, htail⟩ | ⟨outer, hhead, htail⟩
      · exact (ih htail).cons tile
      · cases outer with
        | nil =>
            rw [List.append_nil] at hhead
            have htail' : Tile.texts tiles = [] ++ ';' :: back := htail.symm
            simpa [hhead] using (ih htail').cons tile
        | cons c outer =>
            cases htail
            refine ⟨[], tile, tiles, front, rfl, ?_, rfl, by simp [hhead]⟩
            rintro c rfl
            have hmem : ';' ∈ (Tile.plain c).text := by simp [hhead]
            exact htile.ends (List.mem_singleton.1 hmem).symm

/-- Where no tile fits, the statement ends if a semicolon stands there. -/
theorem Halts.statementEnd_eq_ok_iff {v : Unit} (h : Halts s) :
    statementEnd s = .ok v rest ↔ s = ';' :: rest := by
  constructor
  · intro hend
    obtain ⟨g, mid, hgap, hsemicolon⟩ := bind_eq_ok_iff.1 hend
    rw [gap0_of_solid (solid_of_refuses_verbatimPieces h.refuses)] at hgap
    obtain ⟨c, mid', hchar, hpure⟩ := bind_eq_ok_iff.1 hsemicolon
    cases hgap
    cases hpure
    obtain ⟨hs, rfl⟩ := char_eq_ok_iff.1 hchar
    exact hs
  · rintro rfl
    exact Source.statementEnd_append rest

/-- **Every text is read up to where its row of tiles ends**: at the end of the text, at a
semicolon or at a quote that is never closed.  Every semicolon before that is inside of a comment or
of a quoted text, and the statement ends there exactly if a semicolon follows. -/
theorem verbatim_tiled (s : Text) :
    ∃ tiles rest, verbatim s = .ok (Tile.texts tiles) rest ∧ Tile.texts tiles ++ rest = s ∧
      Tiled tiles rest ∧ Halts rest ∧
      (∀ front back, Tile.texts tiles = front ++ ';' :: back → Encloses tiles front) ∧
      ∀ last, statementEnd rest = .ok () last ↔ rest = ';' :: last := by
  obtain ⟨tiles, rest, htiles, hrest, rfl⟩ := exists_tiled s
  refine ⟨tiles, rest, verbatim_eq_ok_iff.2 ⟨tiles, htiles, hrest, rfl, rfl⟩, rfl, htiles, hrest,
    fun front back hsplit => htiles.encloses hsplit, fun last => hrest.statementEnd_eq_ok_iff⟩

example : verbatim "('a;b'); x".toList = .ok "('a;b')".toList "; x".toList := by cbv

end SchemaDelta.Lexeme
