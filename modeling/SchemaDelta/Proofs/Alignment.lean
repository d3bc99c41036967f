/-
**Reading two texts side by side.**

Two texts are aligned when they have the same pieces and differ in the gaps between them only: what
is left of one of them determines what is left of the other one, up to the gap in front.  A rule
tracks a piece of the first text when, wherever it is left, the rule reads the corresponding piece
of the second one.  That goes through every way of putting rules together, so that a grammar is
followed along the text that is known, and what is read of the other one comes out with it.

The identity is an alignment, since white space is a gap.

Main definitions:

* `SchemaDelta.Alignment` — what is used of a relation between the rests of two texts;
* `SchemaDelta.Alignment.Copies` — a piece that is the same in both texts;
* `SchemaDelta.Alignment.Settles` — both texts go on with something other than a gap;
* `SchemaDelta.Alignment.Tracks`, `SchemaDelta.Alignment.Shuns` — what a rule reads of the second
  text is told by the first one, and what it refuses.

Main results:

* `SchemaDelta.Alignment.Tracks.bind`, `SchemaDelta.Alignment.tracks_firstOf`,
  `SchemaDelta.Alignment.tracks_many` — **sequences, choices and repetitions** are tracked;
* `SchemaDelta.Alignment.tracks_gap1`, `SchemaDelta.Alignment.tracks_keyword`,
  `SchemaDelta.Alignment.tracks_keywords`, `SchemaDelta.Alignment.tracks_name` — so are gaps, words,
  phrases and names.
-/

import SchemaDelta.Proofs.Exchange.Lexeme
import SchemaDelta.Proofs.Separator
import SchemaDelta.Script.Generator

set_option relaxedAutoImplicit false
set_option autoImplicit false

namespace SchemaDelta

open Rule Lexeme

/-- A character that is neither white space nor a quote. -/
def isBare (c : Char) : Bool :=
  !isSpace c && !Text.isNameQuote c

/-- `R s u` says that `u` is left of one text where `s` is left of another one, and that the two
differ in their gaps only. -/
structure Alignment (R : Text → Text → Prop) : Prop where
  /-- Both texts end together. -/
  nil : ∀ {u}, R [] u → u = []
  /-- Outside of gaps the next character is the same. -/
  head : ∀ {c s u}, R (c :: s) u → isSpace c = false → ∃ v, u = c :: v
  bare : ∀ {c s u}, R (c :: s) u → isBare c = true → ∃ v, u = c :: v ∧ R s v
  name : ∀ {body s u}, R (backtick :: (body ++ backtick :: s)) u → backtick ∉ body →
    ∃ v, u = backtick :: (body ++ backtick :: v) ∧ R s v
  string : ∀ {q body s u}, R (q :: (body ++ q :: s)) u → q = singleQuote ∨ q = doubleQuote →
    Text.splitAtQuote? q (body ++ [q]) = some (body, []) → (∀ c ∈ s.head?, c ≠ q) →
      ∃ v, u = q :: (body ++ q :: v) ∧ R s v
  spaces : ∀ {w s u}, R (w ++ s) u → w ≠ [] → w.all isSpace = true →
    (∀ c ∈ s.head?, isSpace c = false) → ∃ g v, IsGap g ∧ u = g ++ v ∧ R s v

namespace Alignment

variable {R : Text → Text → Prop} {α β γ : Type} {p q : Rule α} {s t t' f f' u w : Text}

/-! ### Pieces -/

/-- The piece `t` is the same in both texts. -/
def Copies (R : Text → Text → Prop) (t s : Text) : Prop :=
  ∀ u, R (t ++ s) u → ∃ v, u = t ++ v ∧ R s v

theorem copies_nil : Copies R [] s :=
  fun u hu => ⟨u, rfl, hu⟩

theorem Copies.append (h : Copies R t (t' ++ s)) (h' : Copies R t' s) : Copies R (t ++ t') s := by
  intro u hu
  rw [List.append_assoc] at hu
  obtain ⟨v, rfl, hv⟩ := h u hu
  obtain ⟨x, rfl, hx⟩ := h' v hv
  exact ⟨x, (List.append_assoc _ _ _).symm, hx⟩

/-- Both texts go on with something other than a gap. -/
structure Settles (R : Text → Text → Prop) (s : Text) : Prop where
  head : ∀ c ∈ s.head?, isSpace c = false
  solid : ∀ u, R s u → Solid u

section

variable (hR : Alignment R)

include hR

theorem copies_bare (ht : t.all isBare = true) : Copies R t s := by
  induction t with
  | nil => exact copies_nil
  | cons c t ih =>
      rw [List.all_cons, Bool.and_eq_true] at ht
      intro u hu
      obtain ⟨v, rfl, hv⟩ := hR.bare hu ht.1
      obtain ⟨x, rfl, hx⟩ := ih ht.2 v hv
      exact ⟨x, rfl, hx⟩

theorem copies_quotedWith (hlacks : backtick ∉ t) : Copies R (Text.quotedWith backtick t) s := by
  intro u hu
  rw [Text.quotedWith_of_not_mem hlacks] at hu ⊢
  have hshape : backtick :: (t ++ [backtick]) ++ s = backtick :: (t ++ backtick :: s) := by simp
  rw [hshape] at hu
  obtain ⟨v, rfl, hv⟩ := hR.name hu hlacks
  exact ⟨v, by simp, hv⟩

theorem copies_string {q : Char} {body : Text} (hq : q = singleQuote ∨ q = doubleQuote)
    (hbody : Text.splitAtQuote? q (body ++ [q]) = some (body, [])) (hs : ∀ c ∈ s.head?, c ≠ q) :
    Copies R (q :: (body ++ [q])) s := by
  intro u hu
  have hshape : q :: (body ++ [q]) ++ s = q :: (body ++ q :: s) := by simp
  rw [hshape] at hu
  obtain ⟨v, rfl, hv⟩ := hR.string hu hq hbody hs
  exact ⟨v, by simp, hv⟩

theorem settles_cons {c : Char} (hc : isGapStart c = false) (t : Text) : Settles R (c :: t) where
  head d hd := by
    cases hd
    simp only [isGapStart, Bool.or_eq_false_iff] at hc
    exact hc.1.1.1
  solid u hu := by
    have hspace : isSpace c = false := by
      simp only [isGapStart, Bool.or_eq_false_iff] at hc
      exact hc.1.1.1
    obtain ⟨v, rfl⟩ := hR.head hu hspace
    exact solid_of_head hc v

/-- What the second text starts with is told by the first one, where that is no white space. -/
theorem head_or_gap (hu : R s u) : (∀ c ∈ u.head?, c ∈ s.head?) ∨
    (∃ c ∈ s.head?, isSpace c = true) ∧ ∃ c v, u = c :: v ∧ isGapStart c = true := by
  cases s with
  | nil =>
      rw [hR.nil hu]
      exact .inl fun c hc => hc
  | cons c s =>
      cases hc : isSpace c with
      | false =>
          obtain ⟨v, rfl⟩ := hR.head hu hc
          exact .inl fun d hd => hd
      | true =>
          have hshape : c :: s = (c :: s).takeWhile isSpace ++ (c :: s).dropWhile isSpace :=
            List.takeWhile_append_dropWhile.symm
          have hne : (c :: s).takeWhile isSpace ≠ [] := by
            rw [List.takeWhile_cons_of_pos hc]
            exact List.cons_ne_nil _ _
          have hall : ((c :: s).takeWhile isSpace).all isSpace = true :=
            List.all_eq_true.2 fun d hd => List.mem_takeWhile_imp hd
          have hrest : ∀ d ∈ ((c :: s).dropWhile isSpace).head?, isSpace d = false := by
            intro d hd
            have hnot := List.head?_dropWhile_not isSpace (c :: s)
            rw [Option.mem_def.1 hd] at hnot
            simpa using hnot
          rw [hshape] at hu
          obtain ⟨g, v, hg, rfl, -⟩ := hR.spaces hu hne hall hrest
          obtain ⟨d, g', rfl, hd⟩ := hg.exists_eq_cons
          exact .inr ⟨⟨c, rfl, hc⟩, d, g' ++ v, rfl, hd⟩

/-- A character that the first text does not go on with is none of the second one either, unless
gaps start with it. -/
theorem head_of_head {P : Char → Prop} (hu : R s u) (hs : ∀ c ∈ s.head?, P c)
    (hgap : ∀ c, isGapStart c = true → P c) : ∀ c ∈ u.head?, P c := by
  rcases head_or_gap hR hu with h | ⟨-, d, v, rfl, hd⟩
  · exact fun c hc => hs c (h c hc)
  · intro c hc
    cases hc
    exact hgap d hd

theorem wordEnds (hs : WordEnds s) (hu : R s u) : WordEnds u :=
  head_of_head hR hu hs fun _ => isWordChar_of_isGapStart

theorem itemEnds (hs : ItemEnds s) (hu : R s u) : ItemEnds u := by
  obtain ⟨c, t, rfl, hc⟩ := hs
  have hspace : isSpace c = false := by rcases hc with rfl | rfl <;> decide
  obtain ⟨v, rfl⟩ := hR.head hu hspace
  exact ⟨c, v, rfl, hc⟩

end

/-! ### Rules that track a piece -/

/-- Where `f` and then `s` are left of the first text, the rule reads of the second one a value with
the given property and leaves what corresponds to `s`. -/
def Tracks (R : Text → Text → Prop) (p : Rule α) (f s : Text) (P : α → Prop) : Prop :=
  ∀ u, R (f ++ s) u → ∃ a v, p u = .ok a v ∧ P a ∧ R s v

/-- Where `s` is left of the first text, the rule refuses what is left of the second one. -/
def Shuns (R : Text → Text → Prop) (p : Rule α) (s : Text) : Prop :=
  ∀ u, R s u → p.Refuses u

variable {P : α → Prop} {Q : β → Prop}

theorem Tracks.mono {P' : α → Prop} (h : Tracks R p f s P) (hP : ∀ a, P a → P' a) :
    Tracks R p f s P' := by
  intro u hu
  obtain ⟨a, v, ha, hPa, hv⟩ := h u hu
  exact ⟨a, v, ha, hP a hPa, hv⟩

theorem tracks_pure {a : α} (ha : P a) : Tracks R (pure a) [] s P :=
  fun u hu => ⟨a, u, rfl, ha, hu⟩

theorem Tracks.bind {k : α → Rule β} (h : Tracks R p f (f' ++ s) P)
    (hk : ∀ a, P a → Tracks R (k a) f' s Q) : Tracks R (p >>= k) (f ++ f') s Q := by
  intro u hu
  rw [List.append_assoc] at hu
  obtain ⟨a, v, ha, hPa, hv⟩ := h u hu
  obtain ⟨b, x, hb, hQb, hx⟩ := hk a hPa v hv
  exact ⟨b, x, (bind_of_ok ha k).trans hb, hQb, hx⟩

/-- A part that reads nothing of the piece. -/
theorem Tracks.nil_bind {k : α → Rule β} (h : Tracks R p [] (f ++ s) P)
    (hk : ∀ a, P a → Tracks R (k a) f s Q) : Tracks R (p >>= k) f s Q :=
  Tracks.bind (f := []) h hk

/-- A part that reads the whole piece. -/
theorem Tracks.bind_nil {k : α → Rule β} (h : Tracks R p f s P)
    (hk : ∀ a, P a → Tracks R (k a) [] s Q) : Tracks R (p >>= k) f s Q := by
  rw [← List.append_nil f]
  exact Tracks.bind h hk

theorem Tracks.map {g : α → β} (h : Tracks R p f s P) (hQ : ∀ a, P a → Q (g a)) :
    Tracks R (g <$> p) f s Q := by
  intro u hu
  obtain ⟨a, v, ha, hPa, hv⟩ := h u hu
  exact ⟨g a, v, map_eq_ok_iff.2 ⟨a, ha, rfl⟩, hQ a hPa, hv⟩

theorem Tracks.discard (h : Tracks R p f s P) :
    Tracks R (Functor.discard p) f s fun _ => True :=
  h.map fun _ _ => trivial

theorem Tracks.matched (h : Tracks R p f s P) : Tracks R p.matched f s fun _ => True := by
  intro u hu
  obtain ⟨a, v, ha, -, hv⟩ := h u hu
  exact ⟨u.take (u.length - v.length), v, by rw [Rule.matched, ha], trivial, hv⟩

theorem Tracks.within (h : Tracks R p f s P) (name : Construct) :
    Tracks R (p.within name) f s P := by
  intro u hu
  obtain ⟨a, v, ha, hPa, hv⟩ := h u hu
  exact ⟨a, v, within_eq_ok_iff.2 ha, hPa, hv⟩

theorem Tracks.commit (h : Tracks R p f s P) : Tracks R p.commit f s P := by
  intro u hu
  obtain ⟨a, v, ha, hPa, hv⟩ := h u hu
  exact ⟨a, v, commit_eq_ok_iff.2 ha, hPa, hv⟩

theorem Tracks.orElse (h : Tracks R p f s P) (q : Rule α) : Tracks R (p <|> q) f s P := by
  intro u hu
  obtain ⟨a, v, ha, hPa, hv⟩ := h u hu
  exact ⟨a, v, orElse_of_ok ha q, hPa, hv⟩

theorem Shuns.orElse_tracks (h : Shuns R p (f ++ s)) (hq : Tracks R q f s P) :
    Tracks R (p <|> q) f s P := by
  intro u hu
  rw [(h u hu).orElse_apply]
  exact hq u hu

theorem Tracks.optional (h : Tracks R p f s P) :
    Tracks R p.optional f s fun o => ∃ a, o = some a ∧ P a := by
  intro u hu
  obtain ⟨a, v, ha, hPa, hv⟩ := h u hu
  exact ⟨some a, v, optional_of_ok ha, ⟨a, rfl, hPa⟩, hv⟩

theorem Shuns.optional (h : Shuns R p s) : Tracks R p.optional [] s (· = none) :=
  fun u hu => ⟨none, u, (h u hu).optional, rfl, hu⟩

theorem Shuns.absent (h : Shuns R p s) : Tracks R p.absent [] s fun _ => True :=
  fun u hu => ⟨(), u, (h u hu).absent, trivial, hu⟩

theorem Shuns.bind (h : Shuns R p s) (k : α → Rule β) : Shuns R (p >>= k) s :=
  fun u hu => (h u hu).bind k

theorem Shuns.map (h : Shuns R p s) (g : α → β) : Shuns R (g <$> p) s :=
  fun u hu => (h u hu).map g

theorem Shuns.orElse (hp : Shuns R p s) (hq : Shuns R q s) : Shuns R (p <|> q) s :=
  fun u hu => (hp u hu).orElse (hq u hu)

/-- A sequence refuses where what follows its first part does. -/
theorem Tracks.shuns_bind {k : α → Rule β} (h : Tracks R p f s P)
    (hk : ∀ a, P a → Shuns R (k a) s) : Shuns R (p >>= k) (f ++ s) := by
  intro u hu
  obtain ⟨a, v, ha, hPa, hv⟩ := h u hu
  exact refuses_bind_of_ok ha (hk a hPa v hv)

/-- A rule that reads a piece in front of whatever follows tracks it where both texts have it. -/
theorem Copies.tracks (h : Copies R t s) (hread : ∀ v, R s v → ∃ a, p (t ++ v) = .ok a v ∧ P a) :
    Tracks R p t s P := by
  intro u hu
  obtain ⟨v, rfl, hv⟩ := h u hu
  obtain ⟨a, ha, hPa⟩ := hread v hv
  exact ⟨a, v, ha, hPa, hv⟩

/-! ### Choices by the word in front -/

section

variable (hR : Alignment R) {wss : List (List Text)} {ws : List Text} {ps : List (Rule α)}

include hR

theorem shuns_of_ledBy (h : p.LedBy ws) (lead : Text) (hbare : lead.all isBare = true)
    (hlead : ∀ w ∈ ws, lead.agreesWith w = false) (s : Text) : Shuns R p (lead ++ s) := by
  intro u hu
  obtain ⟨v, rfl, -⟩ := copies_bare hR hbare u hu
  exact h.refuses lead hlead v

/-- A choice refuses what starts with a character of none of its words. -/
theorem shuns_of_ledBy_cons (h : p.LedBy ws) {c : Char} (hc : isSpace c = false)
    (hlead : ∀ w ∈ ws, Text.agreesWith [c] w = false) (s : Text) : Shuns R p (c :: s) := by
  intro u hu
  obtain ⟨v, rfl⟩ := hR.head hu hc
  exact h.refuses_cons hlead v

omit hR in
/-- A choice takes the first alternative that does not refuse. -/
theorem tracks_firstOf_of_shuns (ps qs : List (Rule α))
    (hps : ∀ r ∈ ps, Shuns R r (f ++ s)) (h : Tracks R p f s P) :
    Tracks R (firstOf (ps ++ p :: qs)) f s P := by
  intro u hu
  obtain ⟨a, v, ha, hPa, hv⟩ := h u hu
  exact ⟨a, v, firstOf_of_refuses (fun r hr => hps r hr u hu) ha, hPa, hv⟩

/-- **A choice takes the alternative whose word is there.** -/
theorem tracks_firstOf (h : List.Forall₂ LedBy ps wss) (i : Nat) (hi : ps[i]? = some p)
    (lead : Text) (hbare : lead.all isBare = true)
    (hlead : ∀ ws ∈ wss.take i, ∀ w ∈ ws, lead.agreesWith w = false) (hf : ∃ f', f = lead ++ f')
    (hp : Tracks R p f s P) : Tracks R (firstOf ps) f s P := by
  obtain ⟨f', rfl⟩ := hf
  intro u hu
  obtain ⟨a, v, ha, hPa, hv⟩ := hp u hu
  rw [List.append_assoc] at hu
  obtain ⟨x, rfl, -⟩ := copies_bare hR hbare u hu
  exact ⟨a, v, firstOf_of_ledBy h i hi lead hlead ha, hPa, hv⟩

end

/-! ### Repetitions -/

theorem Shuns.many (h : Shuns R p s) : Tracks R p.many [] s (· = []) :=
  fun u hu => ⟨[], u, (h u hu).many, rfl, hu⟩

/-- **A repetition tracks a list of pieces**, each of them in front of those behind it. -/
theorem tracks_many (text : β → Text) {Q : β → α → Prop} (htakes : Takes 1 p)
    (hstop : Shuns R p s) (bs : List β)
    (h : ∀ front b back, bs = front ++ b :: back →
      Tracks R p (text b) (back.flatMap text ++ s) (Q b)) :
    Tracks R p.many (bs.flatMap text) s fun as => List.Forall₂ Q bs as := by
  induction bs with
  | nil => exact hstop.many.mono fun as has => has ▸ .nil
  | cons b bs ih =>
      have hbs := ih fun front c back heq => h (b :: front) c back (congrArg (b :: ·) heq)
      intro u hu
      rw [List.flatMap_cons, List.append_assoc] at hu
      obtain ⟨a, v, ha, hQa, hv⟩ := h [] b bs rfl u hu
      obtain ⟨as, x, has, hQs, hx⟩ := hbs v hv
      have hlt : v.length < u.length := htakes u a v ha
      exact ⟨a :: as, x, many_eq_cons ha hlt has, .cons hQa hQs, hx⟩

/-- So does a list with the given rule between its items, the first of which stands without it. -/
theorem tracks_sepBy1 {sep : Rule γ} (text between : β → Text) {Q : β → α → Prop}
    (htakes : Takes 1 (sep *> p)) (hstop : Shuns R (sep *> p) s) (b : β) (bs : List β)
    (hsep : ∀ front c back, bs = front ++ c :: back → Tracks R sep (between c)
      (text c ++ (back.flatMap (fun d => between d ++ text d) ++ s)) fun _ => True)
    (h : ∀ front c back, b :: bs = front ++ c :: back →
      Tracks R p (text c) (back.flatMap (fun d => between d ++ text d) ++ s) (Q c)) :
    Tracks R (sepBy1 sep p) (text b ++ bs.flatMap fun d => between d ++ text d) s
      fun as => List.Forall₂ Q (b :: bs) as := by
  have hmany : Tracks R (sep *> p).many (bs.flatMap fun d => between d ++ text d) s
      fun as => List.Forall₂ Q bs as :=
    tracks_many _ htakes hstop bs fun front c back heq => (hsep front c back heq).bind fun _ _ =>
      h (b :: front) c back (congrArg (b :: ·) heq)
  refine (h [] b bs rfl).bind fun a ha => hmany.bind_nil fun as has => ?_
  exact tracks_pure (.cons ha has)

/-! ### Gaps and punctuation -/

section

variable (hR : Alignment R)

include hR

theorem tracks_char {c : Char} (hc : isBare c = true) (s : Text) :
    Tracks R (char c) [c] s fun _ => True := by
  intro u hu
  obtain ⟨v, rfl, hv⟩ := hR.bare hu hc
  exact ⟨c, v, char_cons c v, trivial, hv⟩

theorem shuns_char {c d : Char} (hd : isSpace d = false) (hne : d ≠ c) (s : Text) :
    Shuns R (char c) (d :: s) := by
  intro u hu
  obtain ⟨v, rfl⟩ := hR.head hu hd
  exact refuses_char hne

/-- **White space stands for a gap.** -/
theorem tracks_gap1 (hne : w ≠ []) (hw : w.all isSpace = true) (hs : Settles R s) :
    Tracks R gap1 w s fun _ => True := by
  intro u hu
  obtain ⟨g, v, hg, rfl, hv⟩ := hR.spaces hu hne hw hs.head
  exact ⟨(), v, hg.gap1 (hs.solid v hv), trivial, hv⟩

theorem tracks_gap0 (hw : w.all isSpace = true) (hs : Settles R s) :
    Tracks R gap0 w s fun _ => True := by
  by_cases hne : w = []
  · subst hne
    exact fun u hu => ⟨(), u, gap0_of_solid (hs.solid u hu), trivial, hu⟩
  · intro u hu
    obtain ⟨g, v, hg, rfl, hv⟩ := hR.spaces hu hne hw hs.head
    exact ⟨(), v, hg.gap0 (hs.solid v hv), trivial, hv⟩

omit hR in
theorem Settles.gap0 (hs : Settles R s) : Tracks R gap0 [] s fun _ => True :=
  fun u hu => ⟨(), u, gap0_of_solid (hs.solid u hu), trivial, hu⟩

omit hR in
theorem Settles.shuns_gap1 (hs : Settles R s) (k : Unit → Rule β) : Shuns R (gap1 >>= k) s :=
  fun u hu => (refuses_gap1 (hs.solid u hu)).bind k

/-- After a space comes what follows a gap. -/
theorem tracks_spaced {p : Rule α} (hs : Settles R (f ++ s)) (h : Tracks R p f s P) :
    Tracks R (gap1 *> p) (' ' :: f) s P :=
  Tracks.bind (f := [' ']) (tracks_gap1 hR (by decide) (by decide) hs) fun _ _ => h

theorem shuns_spaced {p : Rule α} (hs : Settles R s) (h : Shuns R p s) :
    Shuns R (gap1 *> p) (' ' :: s) :=
  Tracks.shuns_bind (f := [' ']) (tracks_gap1 hR (by decide) (by decide) hs) fun _ _ => h

theorem tracks_commaBetween {before : Text} (hbefore : before.all isSpace = true)
    (hw : w.all isSpace = true) (hs : Settles R s) :
    Tracks R comma (before ++ ',' :: w) s fun _ => True :=
  (tracks_gap0 hR hbefore (settles_cons hR (by decide) _)).bind fun _ _ =>
    Tracks.bind (f := [',']) (tracks_char hR (by decide) _) fun _ _ => tracks_gap0 hR hw hs

theorem tracks_comma (hw : w.all isSpace = true) (hs : Settles R s) :
    Tracks R comma (',' :: w) s fun _ => True :=
  tracks_commaBetween hR List.all_nil hw hs

/-- There is no comma where a gap ends at something else. -/
theorem shuns_comma {c : Char} (hw : w.all isSpace = true) (hc : isGapStart c = false)
    (hne : c ≠ ',') (s : Text) (k : Unit → Rule β) : Shuns R (comma >>= k) (w ++ c :: s) := by
  have hspace := (settles_cons hR hc s).head c rfl
  refine Shuns.bind ?_ k
  exact (tracks_gap0 hR hw (settles_cons hR hc s)).shuns_bind fun _ _ =>
    (shuns_char hR hspace hne s).bind _

theorem tracks_parenthesized {inner : Rule α} {w w' : Text} (hw : w.all isSpace = true)
    (hw' : w'.all isSpace = true) (hs : Settles R (f ++ (w' ++ ')' :: s)))
    (h : Tracks R inner f (w' ++ ')' :: s) P) :
    Tracks R (parenthesized inner) ('(' :: (w ++ (f ++ (w' ++ [')'])))) s P := by
  refine Tracks.bind (f := ['(']) (tracks_char hR (by decide) _) fun _ _ => ?_
  refine Tracks.bind (tracks_gap0 hR hw ?_) fun _ _ => ?_
  · simpa using hs
  refine Tracks.bind (P := P) ?_ fun a ha => ?_
  · simpa using h
  refine Tracks.bind (tracks_gap0 hR hw' (settles_cons hR (by decide) _)) fun _ _ => ?_
  exact (tracks_char hR (by decide) s).bind_nil fun _ _ => tracks_pure ha

end

/-! ### Words and names -/

section

variable (hR : Alignment R)

include hR

theorem tracks_wholeWord {word : Text} (ht : t.Spells word) (hbare : t.all isBare = true)
    (hs : WordEnds s) : Tracks R (wholeWord word) t s (· = t) :=
  (copies_bare hR hbare).tracks fun _ hv => ⟨t, wholeWord_append ht (wordEnds hR hs hv), rfl⟩

/-- **Keywords are tracked** in front of anything that does not run on. -/
theorem tracks_keyword (word : String) (t : Text) (ht : t.Spells word.toList)
    (hbare : t.all isBare = true) (hs : WordEnds s) : Tracks R (keyword word) t s (· = t) :=
  tracks_wholeWord hR ht hbare hs

/-- A word of a phrase, as it is written. -/
structure IsPhraseWord (t word : Text) : Prop where
  spells : t.Spells word
  bare : t.all isBare = true
  solid : (t.head?.any fun c => !isGapStart c) = true

omit hR in
instance (t word : Text) : Decidable (IsPhraseWord t word) :=
  decidable_of_iff (t.Spells word ∧ t.all isBare = true ∧
      (t.head?.any fun c => !isGapStart c) = true)
    ⟨fun h => ⟨h.1, h.2.1, h.2.2⟩, fun h => ⟨h.spells, h.bare, h.solid⟩⟩

theorem IsPhraseWord.settles {word : Text} (ht : IsPhraseWord t word) (s : Text) :
    Settles R (t ++ s) := by
  cases t with
  | nil => cases ht.solid
  | cons c t => exact settles_cons hR (by simpa using ht.solid) _

/-- A choice of keywords takes the one that is there. -/
theorem tracks_firstOf_keyword {ps : List (Rule Text)} {wss : List (List Text)}
    (h : List.Forall₂ LedBy ps wss) (i : Nat) (word : String) (hi : ps[i]? = some (keyword word))
    (t : Text) (ht : IsPhraseWord t word.toList)
    (hlead : ∀ ws ∈ wss.take i, ∀ w ∈ ws, t.agreesWith w = false) (hs : WordEnds s) :
    Tracks R (firstOf ps) t s (· = t) :=
  tracks_firstOf hR h i hi t ht.bare hlead ⟨[], (List.append_nil t).symm⟩
    (tracks_keyword hR word t ht.spells ht.bare hs)

theorem tracks_wholeWords {ts ws : List Text} (h : List.Forall₂ IsPhraseWord ts ws)
    (hs : WordEnds s) :
    Tracks R (wholeWords ws) (Text.joinWith [' '] ts) s fun _ => True := by
  induction h with
  | nil => exact tracks_pure trivial
  | @cons t w ts ws ht hts ih =>
      cases hts with
      | nil =>
          rw [Text.joinWith_singleton]
          exact (tracks_wholeWord hR ht.spells ht.bare hs).discard
      | @cons t' w' ts ws ht' hts =>
          have hnext : Settles R (Text.joinWith [' '] (t' :: ts) ++ s) := by
            rw [Text.joinWith_cons, List.append_assoc]
            exact ht'.settles hR _
          rw [Text.joinWith_cons_cons, List.append_assoc]
          refine Tracks.bind (tracks_wholeWord hR ht.spells ht.bare (wordEnds_space _))
            fun _ _ => ?_
          exact tracks_spaced hR hnext ih

/-- **So are phrases**, with a space between their words. -/
theorem tracks_keywords (phrase : String) (t : Text) (ts ws : List Text)
    (ht : Text.joinWith [' '] ts = t) (hphrase : Text.words phrase.toList = ws)
    (h : List.Forall₂ IsPhraseWord ts ws) (hs : WordEnds s) :
    Tracks R (keywords phrase) t s fun _ => True := by
  subst ht hphrase
  exact (tracks_wholeWords hR h hs).matched

/-- **A quoted name is tracked** whatever follows. -/
theorem tracks_name (hne : t ≠ []) (hlacks : backtick ∉ t) (s : Text) :
    Tracks R identifier (Text.quotedWith backtick t) s (· = Text.quotedWith backtick t) :=
  (copies_quotedWith hR hlacks).tracks fun v _ => ⟨_, identifier_quotedWith hne hlacks v, rfl⟩

theorem settles_quotedWith (t s : Text) : Settles R (Text.quotedWith backtick t ++ s) :=
  settles_cons hR (c := backtick) (by decide) _

omit hR in
theorem isBare_of_isWordChar {c : Char} (h : isWordChar c = true) : isBare c = true := by
  have hgap := isGapStart_of_isWordChar h
  simp only [isGapStart, Bool.or_eq_false_iff] at hgap
  simp [isBare, hgap.1.1.1, Text.isNameQuote_of_isWordChar h]

omit hR in
theorem all_isBare_of_word (h : ∀ c ∈ t, isWordChar c = true) : t.all isBare = true :=
  List.all_eq_true.2 fun c hc => isBare_of_isWordChar (h c hc)

/-- A bare name is tracked in front of anything that does not run on. -/
theorem tracks_bareName (hne : t ≠ []) (hword : ∀ c ∈ t, isWordChar c = true) (hs : WordEnds s) :
    Tracks R identifier t s (· = t) :=
  (copies_bare hR (all_isBare_of_word hword)).tracks fun _ hv =>
    ⟨_, identifier_word hne hword (wordEnds hR hs hv), rfl⟩

theorem tracks_bareIdentifier (hne : t ≠ []) (hword : ∀ c ∈ t, isWordChar c = true)
    (hs : WordEnds s) : Tracks R bareIdentifier t s (· = t) :=
  (copies_bare hR (all_isBare_of_word hword)).tracks fun _ hv =>
    ⟨_, span1_append hne hword (wordEnds hR hs hv), rfl⟩

theorem settles_word (hne : t ≠ []) (hword : ∀ c ∈ t, isWordChar c = true) (s : Text) :
    Settles R (t ++ s) := by
  obtain ⟨c, u, rfl⟩ := List.exists_cons_of_ne_nil hne
  exact settles_cons hR (isGapStart_of_isWordChar (hword c List.mem_cons_self)) _

/-- A string is tracked in front of anything but another quote. -/
theorem tracks_quotedString {q : Char} {body : Text} (hq : q = singleQuote ∨ q = doubleQuote)
    (hbody : Text.splitAtQuote? q (body ++ [q]) = some (body, [])) (hs : ∀ c ∈ s.head?, c ≠ q) :
    Tracks R quotedString (q :: (body ++ [q])) s (· = (q, body)) := by
  refine (copies_string hR hq hbody hs).tracks fun v hv => ⟨_, ?_, rfl⟩
  have hquote : ∀ c ∈ v.head?, c ≠ q := by
    refine head_of_head hR hv hs fun c hc => ?_
    rintro rfl
    rcases hq with rfl | rfl <;> exact absurd hc (by decide)
  have hsplit := Text.splitAtQuote?_append hbody hquote
  simpa using quotedString_append hq hsplit

end

/-! ### The identity -/

/-- The rests of one text, with pieces that are closed in front of them. -/
theorem of_eq {C : Text → Prop} (hbare : ∀ {c s}, C (c :: s) → isBare c = true → C s)
    (hname : ∀ {body s}, C (backtick :: (body ++ backtick :: s)) → backtick ∉ body → C s)
    (hstring : ∀ {q body s}, C (q :: (body ++ q :: s)) → q = singleQuote ∨ q = doubleQuote →
      Text.splitAtQuote? q (body ++ [q]) = some (body, []) → (∀ c ∈ s.head?, c ≠ q) → C s)
    (hspaces : ∀ {w s}, C (w ++ s) → w ≠ [] → w.all isSpace = true → C s) :
    Alignment fun s u => s = u ∧ C s where
  nil h := h.1.symm
  head h _ := ⟨_, h.1.symm⟩
  bare h hc := ⟨_, h.1.symm, rfl, hbare h.2 hc⟩
  name h hbody := ⟨_, h.1.symm, rfl, hname h.2 hbody⟩
  string h hq hbody hs := ⟨_, h.1.symm, rfl, hstring h.2 hq hbody hs⟩
  spaces h hne hw _ := ⟨_, _, isGap_of_spaces hne hw, h.1.symm, rfl, hspaces h.2 hne hw⟩

end Alignment

end SchemaDelta
