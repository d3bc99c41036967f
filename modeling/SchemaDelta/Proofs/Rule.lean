/-
**Which rules fit, which refuse, and what they yield.**

To know what an ordered choice reads, one has to know that the alternatives before the right one
refuse.  Nearly every rule of the schema language starts with a word, so that it is enough to see
that none of its words stands in front.

In the other direction, what a rule yields is known from how it is put together, whatever the text
was: this is how the parts of a schema that was read are known to be well formed.

Main definitions:

* `SchemaDelta.Rule.Refuses` — a rule does not fit a text;
* `SchemaDelta.Rule.LedBy` — a rule refuses where none of the given words stands in front;
* `SchemaDelta.Rule.Yields` — every value that a rule reads has a property;
* `SchemaDelta.Rule.Mild` — a rule never ends the whole reading;
* `SchemaDelta.Rule.ReadsBack` — a rule reads the members of a list back from their text;
* `SchemaDelta.Rule.Misreads` — except for members that are marred by what is written behind them.

Main results:

* `SchemaDelta.Rule.firstOf_of_ledBy`, `SchemaDelta.Rule.eq_ok_of_firstOf_ledBy` — **a choice takes
  the alternative whose word is there**, and no other;
* `SchemaDelta.Rule.yields_firstOf`, `SchemaDelta.Rule.yields_many` — values of choices and
  repetitions;
* `SchemaDelta.Rule.many_eq_cons` — one step of a repetition, from the value to its parts;
* `SchemaDelta.Rule.ReadsBack.many`, `SchemaDelta.Rule.ReadsBack.many_of_marred` — **written lists
  are read back**, unless a member of them is marred.
-/

import Mathlib.Data.List.Forall2
import Mathlib.Data.List.TakeWhile
import SchemaDelta.Lexeme.Quoted

set_option relaxedAutoImplicit false
set_option autoImplicit false

namespace SchemaDelta

/-! ### Words in front -/

/-- A text that starts with something else than the word does so whatever follows. -/
theorem Text.agreesWith_append {s w : Text} (h : s.agreesWith w = false) (t : Text) :
    (s ++ t).agreesWith w = false := by
  induction s generalizing w with
  | nil => cases w <;> cases h
  | cons c s ih =>
      cases w with
      | nil => cases h
      | cons d w =>
          rw [List.cons_append, Text.agreesWith]
          rw [Text.agreesWith] at h
          cases hcd : lowerChar c == lowerChar d with
          | false => rfl
          | true =>
              rw [hcd, Bool.true_and] at h
              rw [Bool.true_and]
              exact ih h

/-- A text agrees with every word that it starts with. -/
theorem Text.agreesWith_of_isPrefixOf {s w : Text} (h : w.isPrefixOf s = true) :
    s.agreesWith w = true := by
  induction w generalizing s with
  | nil => cases s <;> rfl
  | cons d w ih =>
      cases s with
      | nil => cases h
      | cons c s =>
          rw [List.isPrefixOf, Bool.and_eq_true, beq_iff_eq] at h
          rw [Text.agreesWith, h.1, ih h.2]
          simp

namespace Rule

variable {α β : Type} {p q : Rule α} {s rest : Text} {a : α}

/-! ### Rules that refuse -/

/-- A rule does not fit a text and leaves it to the alternatives. -/
def Refuses (p : Rule α) (s : Text) : Prop :=
  ∃ why, p s = .mismatch why

theorem Refuses.ne_ok (h : p.Refuses s) : p s ≠ .ok a rest := by
  obtain ⟨why, h⟩ := h
  rw [h]
  exact nofun

theorem Refuses.bind (h : p.Refuses s) (f : α → Rule β) : (p >>= f).Refuses s := by
  obtain ⟨why, h⟩ := h
  exact ⟨why, bind_of_mismatch h f⟩

theorem refuses_bind_of_ok {f : α → Rule β} (h : p s = .ok a rest) (hf : (f a).Refuses rest) :
    (p >>= f).Refuses s := by
  obtain ⟨why, hf⟩ := hf
  exact ⟨why, (bind_of_ok h f).trans hf⟩

theorem Refuses.map (h : p.Refuses s) (f : α → β) : (f <$> p).Refuses s := by
  obtain ⟨why, h⟩ := h
  exact ⟨why, by rw [map_apply, h]⟩

theorem Refuses.discard (h : p.Refuses s) : Refuses (Functor.discard p) s := by
  obtain ⟨why, h⟩ := h
  exact ⟨why, by rw [discard_apply, h]⟩

theorem Refuses.matched (h : p.Refuses s) : p.matched.Refuses s := by
  obtain ⟨why, h⟩ := h
  exact ⟨why, by rw [Rule.matched, h]⟩

theorem Refuses.orElse_apply (h : p.Refuses s) (q : Rule α) : (p <|> q) s = q s := by
  obtain ⟨why, h⟩ := h
  exact orElse_of_mismatch h q

theorem Refuses.orElse (hp : p.Refuses s) (hq : q.Refuses s) : (p <|> q).Refuses s := by
  obtain ⟨why, hq⟩ := hq
  exact ⟨why, (hp.orElse_apply q).trans hq⟩

theorem Refuses.optional (h : p.Refuses s) : p.optional s = .ok none s := by
  obtain ⟨why, h⟩ := h
  exact optional_of_mismatch h

theorem Refuses.absent (h : p.Refuses s) : p.absent s = .ok () s := by
  obtain ⟨why, h⟩ := h
  exact absent_of_mismatch h

theorem Refuses.many (h : p.Refuses s) : p.many s = .ok [] s := by
  obtain ⟨why, h⟩ := h
  exact many_of_mismatch h

theorem refuses_absent_of_ok (h : p s = .ok a rest) : p.absent.Refuses s :=
  ⟨_, absent_of_ok h⟩

theorem refuses_firstOf {ps : List (Rule α)} (h : ∀ p ∈ ps, p.Refuses s) :
    (firstOf ps).Refuses s := by
  induction ps with
  | nil => exact ⟨⟨s, []⟩, rfl⟩
  | cons p ps ih =>
      cases ps with
      | nil => exact h p List.mem_cons_self
      | cons q ps =>
          rw [firstOf_cons_cons]
          exact (h p List.mem_cons_self).orElse (ih fun r hr => h r (List.mem_cons_of_mem p hr))

/-- A choice takes the first alternative that does not refuse. -/
theorem firstOf_of_refuses {ps qs : List (Rule α)} (hps : ∀ r ∈ ps, r.Refuses s)
    (h : p s = .ok a rest) : firstOf (ps ++ p :: qs) s = .ok a rest := by
  induction ps with
  | nil =>
      cases qs with
      | nil => exact h
      | cons q qs => exact orElse_of_ok h _
  | cons r ps ih =>
      have htail : firstOf (ps ++ p :: qs) s = .ok a rest :=
        ih fun r' hr' => hps r' (List.mem_cons_of_mem r hr')
      have hr : r.Refuses s := hps r List.mem_cons_self
      cases hps' : ps ++ p :: qs with
      | nil => simp at hps'
      | cons q rs =>
          rw [List.cons_append, hps', firstOf_cons_cons, hr.orElse_apply, ← hps', htail]

theorem refuses_satisfy {f : Char → Bool} {c : Char} {t : Text} (h : f c = false) :
    (satisfy f).Refuses (c :: t) :=
  ⟨⟨c :: t, []⟩, by simp [satisfy, h]⟩

theorem refuses_span1 {f : Char → Bool} {c : Char} {t : Text} (h : f c = false) :
    (span1 f).Refuses (c :: t) :=
  ⟨⟨c :: t, []⟩, by simp [span1, h]⟩

theorem refuses_char {c d : Char} {t : Text} (h : d ≠ c) : (char c).Refuses (d :: t) :=
  refuses_satisfy (by simpa using h)

theorem char_cons (c : Char) (t : Text) : char c (c :: t) = .ok c t :=
  char_eq_ok_iff.2 ⟨rfl, rfl⟩

/-- A run of characters is read up to a character that does not belong to it. -/
theorem span1_append {f : Char → Bool} {front : Text} (hne : front ≠ [])
    (hfront : ∀ c ∈ front, f c = true) (hrest : ∀ c ∈ rest.head?, f c = false) :
    span1 f (front ++ rest) = .ok front rest := by
  have htake : rest.takeWhile f = [] ∧ rest.dropWhile f = rest := by
    cases rest with
    | nil => exact ⟨rfl, rfl⟩
    | cons c t =>
        have hc : f c = false := hrest c rfl
        exact ⟨by simp [hc], by simp [hc]⟩
  refine span1_eq_ok_iff.2 ⟨hne, ?_, ?_⟩
  · rw [List.takeWhile_append_of_pos hfront, htake.1, List.append_nil]
  · rw [List.dropWhile_append_of_pos hfront, htake.2]

/-! ### Rules that start with a word -/

/-- A rule refuses every text that starts with none of the given words. -/
def LedBy (p : Rule α) (words : List Text) : Prop :=
  ∀ s, (∀ w ∈ words, s.agreesWith w = false) → p.Refuses s

variable {ws vs : List Text}

theorem LedBy.refuses (h : p.LedBy ws) (front : Text)
    (hfront : ∀ w ∈ ws, front.agreesWith w = false) (t : Text) : p.Refuses (front ++ t) :=
  h (front ++ t) fun w hw => Text.agreesWith_append (hfront w hw) t

theorem LedBy.refuses_cons (h : p.LedBy ws) {c : Char} (hc : ∀ w ∈ ws, Text.agreesWith [c] w = false)
    (t : Text) : p.Refuses (c :: t) :=
  h.refuses [c] hc t

theorem LedBy.bind (h : p.LedBy ws) (f : α → Rule β) : (p >>= f).LedBy ws :=
  fun s hs => (h s hs).bind f

theorem LedBy.map (h : p.LedBy ws) (f : α → β) : (f <$> p).LedBy ws :=
  fun s hs => (h s hs).map f

theorem LedBy.discard (h : p.LedBy ws) : LedBy (Functor.discard p) ws :=
  fun s hs => (h s hs).discard

theorem LedBy.matched (h : p.LedBy ws) : p.matched.LedBy ws :=
  fun s hs => (h s hs).matched

theorem LedBy.orElse (hp : p.LedBy ws) (hq : q.LedBy vs) : (p <|> q).LedBy (ws ++ vs) :=
  fun s hs => (hp s fun w hw => hs w (List.mem_append_left vs hw)).orElse
    (hq s fun w hw => hs w (List.mem_append_right ws hw))

/-- Where a rule may be left out, the words of what follows stand in front as well. -/
theorem LedBy.optional_bind {f : Option α → Rule β} (hp : p.LedBy ws) (hf : (f none).LedBy vs) :
    (p.optional >>= f).LedBy (ws ++ vs) :=
  fun s hs => refuses_bind_of_ok (hp s fun w hw => hs w (List.mem_append_left vs hw)).optional
    (hf s fun w hw => hs w (List.mem_append_right ws hw))

theorem exists_ledBy_of_mem {ps : List (Rule α)} {wss : List (List Text)}
    (h : List.Forall₂ LedBy ps wss) (hp : p ∈ ps) : ∃ ws ∈ wss, p.LedBy ws := by
  induction h with
  | nil => cases hp
  | cons hhead _ ih =>
      rcases List.mem_cons.1 hp with rfl | hp
      · exact ⟨_, List.mem_cons_self, hhead⟩
      · obtain ⟨ws, hws, hled⟩ := ih hp
        exact ⟨ws, List.mem_cons_of_mem _ hws, hled⟩

theorem ledBy_firstOf {ps : List (Rule α)} {wss : List (List Text)}
    (h : List.Forall₂ LedBy ps wss) : (firstOf ps).LedBy wss.flatten := by
  intro s hs
  refine refuses_firstOf fun p hp => ?_
  obtain ⟨ws, hws, hled⟩ := exists_ledBy_of_mem h hp
  exact hled s fun w hw => hs w (List.mem_flatten.2 ⟨ws, hws, hw⟩)

/-- **A choice takes the alternative whose word is there**, if the words of the alternatives before
it are not. -/
theorem firstOf_of_ledBy {ps : List (Rule α)} {wss : List (List Text)}
    (h : List.Forall₂ LedBy ps wss) (i : Nat) (hi : ps[i]? = some p) (front : Text) {t : Text}
    (hfront : ∀ ws ∈ wss.take i, ∀ w ∈ ws, front.agreesWith w = false)
    (hp : p (front ++ t) = .ok a rest) : firstOf ps (front ++ t) = .ok a rest := by
  obtain ⟨hlt, hget⟩ := List.getElem?_eq_some_iff.1 hi
  have hsplit : ps = ps.take i ++ p :: ps.drop (i + 1) := by
    rw [← hget, List.getElem_cons_drop hlt, List.take_append_drop]
  rw [hsplit]
  -- the alternatives before the right one refuse, each for the lack of its words
  refine firstOf_of_refuses (fun r hr => ?_) hp
  obtain ⟨ws, hws, hled⟩ := exists_ledBy_of_mem (List.forall₂_take i h) hr
  exact hled.refuses front (hfront ws hws) t

theorem ledBy_literal (word : String) : (literal word).LedBy [word.toList] := by
  intro s hs
  have hword : s.agreesWith word.toList = false := hs _ List.mem_cons_self
  have hprefix : ¬ word.toList.isPrefixOf s = true := by
    intro h
    rw [Text.agreesWith_of_isPrefixOf h] at hword
    cases hword
  exact ⟨⟨s, []⟩, if_neg hprefix⟩

/-! ### Where a value comes from -/

theorem map_eq_ok_iff {f : α → β} {b : β} :
    (f <$> p) s = .ok b rest ↔ ∃ a, p s = .ok a rest ∧ f a = b := by
  rw [map_apply]
  cases p s with
  | ok a mid =>
      constructor
      · intro h
        cases h
        exact ⟨a, rfl, rfl⟩
      · rintro ⟨a', heq, rfl⟩
        cases heq
        rfl
  | mismatch why => simp
  | abort why => simp

/-- The value of a choice is that of the first rule, or the first rule refuses. -/
theorem orElse_eq_ok (h : (p <|> q) s = .ok a rest) :
    p s = .ok a rest ∨ p.Refuses s ∧ q s = .ok a rest := by
  rw [orElse_apply] at h
  cases hp : p s with
  | ok b mid => rw [hp] at h; exact .inl h
  | mismatch why => rw [hp] at h; exact .inr ⟨⟨why, hp⟩, h⟩
  | abort why => rw [hp] at h; cases h

/-- The value of a choice is that of the first rule that does not refuse. -/
theorem firstOf_eq_ok {ps : List (Rule α)} (h : firstOf ps s = .ok a rest) :
    ∃ before p after, ps = before ++ p :: after ∧ (∀ r ∈ before, r.Refuses s) ∧
      p s = .ok a rest := by
  induction ps with
  | nil => cases h
  | cons p ps ih =>
      cases ps with
      | nil => exact ⟨[], p, [], rfl, List.forall_mem_nil _, h⟩
      | cons q ps =>
          rw [firstOf_cons_cons] at h
          rcases orElse_eq_ok h with h | ⟨hp, h⟩
          · exact ⟨[], p, q :: ps, rfl, List.forall_mem_nil _, h⟩
          · obtain ⟨before, p', after, heq, hbefore, h⟩ := ih h
            refine ⟨p :: before, p', after, by rw [heq, List.cons_append], fun r hr => ?_, h⟩
            rcases List.mem_cons.1 hr with rfl | hr
            · exact hp
            · exact hbefore r hr

theorem exists_of_firstOf_eq_ok {ps : List (Rule α)} (h : firstOf ps s = .ok a rest) :
    ∃ p ∈ ps, p s = .ok a rest := by
  obtain ⟨before, p, after, rfl, -, h⟩ := firstOf_eq_ok h
  exact ⟨p, by simp, h⟩

/-- The alternatives refuse whose words are not there. -/
theorem refuses_of_forall₂_ledBy {ps : List (Rule α)} {wss : List (List Text)}
    (h : List.Forall₂ LedBy ps wss) {i k : Nat} (hki : k ≠ i) (hk : ps[k]? = some q) (front : Text)
    {t : Text} (hfront : ∀ ws ∈ wss.eraseIdx i, ∀ w ∈ ws, front.agreesWith w = false) :
    q.Refuses (front ++ t) := by
  obtain ⟨hlt, hget⟩ := List.getElem?_eq_some_iff.1 hk
  have hlt' : k < wss.length := h.length_eq ▸ hlt
  have hled : q.LedBy wss[k] := hget ▸ (List.forall₂_iff_get.1 h).2 k hlt hlt'
  have hmem : wss[k] ∈ wss.eraseIdx i :=
    List.mem_eraseIdx_iff_getElem?.2 ⟨k, hki, List.getElem?_eq_getElem hlt'⟩
  exact hled.refuses front (hfront _ hmem) t

/-- **A choice takes no other alternative than the one whose word is there**, if the words of the
others are not. -/
theorem eq_ok_of_firstOf_ledBy {ps : List (Rule α)} {wss : List (List Text)}
    (h : List.Forall₂ LedBy ps wss) (i : Nat) (hi : ps[i]? = some p) (front : Text) {t : Text}
    (hfront : ∀ ws ∈ wss.eraseIdx i, ∀ w ∈ ws, front.agreesWith w = false)
    (hok : firstOf ps (front ++ t) = .ok a rest) : p (front ++ t) = .ok a rest := by
  obtain ⟨q, hq, hread⟩ := exists_of_firstOf_eq_ok hok
  obtain ⟨k, hk⟩ := List.mem_iff_getElem?.1 hq
  by_cases hki : k = i
  · subst hki
    rw [hk] at hi
    cases hi
    exact hread
  · exact absurd hread (refuses_of_forall₂_ledBy h hki hk front hfront).ne_ok

theorem firstOf_eq_ok_iff_of_ledBy {ps : List (Rule α)} {wss : List (List Text)}
    (h : List.Forall₂ LedBy ps wss) (i : Nat) (hi : ps[i]? = some p) (front : Text) {t : Text}
    (hfront : ∀ ws ∈ wss.eraseIdx i, ∀ w ∈ ws, front.agreesWith w = false) :
    firstOf ps (front ++ t) = .ok a rest ↔ p (front ++ t) = .ok a rest := by
  refine ⟨eq_ok_of_firstOf_ledBy h i hi front hfront, firstOf_of_ledBy h i hi front ?_⟩
  intro ws hws
  refine hfront ws ?_
  rw [List.eraseIdx_eq_take_drop_succ]
  exact List.mem_append_left _ hws

/-- Where that alternative refuses, so does the choice. -/
theorem refuses_firstOf_of_ledBy {ps : List (Rule α)} {wss : List (List Text)}
    (h : List.Forall₂ LedBy ps wss) (i : Nat) (hi : ps[i]? = some p) (front : Text) {t : Text}
    (hfront : ∀ ws ∈ wss.eraseIdx i, ∀ w ∈ ws, front.agreesWith w = false)
    (hp : p.Refuses (front ++ t)) : (firstOf ps).Refuses (front ++ t) := by
  refine refuses_firstOf fun q hq => ?_
  obtain ⟨k, hk⟩ := List.mem_iff_getElem?.1 hq
  by_cases hki : k = i
  · subst hki
    rw [hk] at hi
    cases hi
    exact hp
  · exact refuses_of_forall₂_ledBy h hki hk front hfront

theorem optional_eq_ok {o : Option α} (h : p.optional s = .ok o rest) :
    (∃ a, o = some a ∧ p s = .ok a rest) ∨ p.Refuses s ∧ o = none ∧ rest = s := by
  rw [optional] at h
  cases hp : p s with
  | ok a mid => rw [hp] at h; cases h; exact .inl ⟨a, rfl, rfl⟩
  | mismatch why => rw [hp] at h; cases h; exact .inr ⟨⟨why, hp⟩, rfl, rfl⟩
  | abort why => rw [hp] at h; cases h

theorem matched_eq_ok {t : Text} (h : p.matched s = .ok t rest) :
    ∃ a, p s = .ok a rest ∧ t = s.take (s.length - rest.length) := by
  rw [matched] at h
  cases hp : p s with
  | ok a mid => rw [hp] at h; cases h; exact ⟨a, rfl, rfl⟩
  | mismatch why => rw [hp] at h; cases h
  | abort why => rw [hp] at h; cases h

theorem discard_eq_ok {u : Unit} (h : Functor.discard p s = .ok u rest) : ∃ a, p s = .ok a rest := by
  rw [discard_apply] at h
  cases hp : p s with
  | ok a mid => rw [hp] at h; cases h; exact ⟨a, rfl⟩
  | mismatch why => rw [hp] at h; cases h
  | abort why => rw [hp] at h; cases h

/-! ### What a rule yields -/

/-- Every value that a rule reads has the property. -/
def Yields (p : Rule α) (P : α → Prop) : Prop :=
  ∀ s a rest, p s = .ok a rest → P a

variable {P P' : α → Prop} {Q : β → Prop}

theorem Yields.imp (h : p.Yields P) (hP : ∀ a, P a → P' a) : p.Yields P' :=
  fun s a rest ha => hP a (h s a rest ha)

theorem yields_true (p : Rule α) : p.Yields fun _ => True :=
  fun _ _ _ _ => trivial

theorem yields_pure (h : P a) : (pure a : Rule α).Yields P := by
  intro s b rest hb
  cases hb
  exact h

theorem Yields.bind {f : α → Rule β} (h : p.Yields P) (hf : ∀ a, P a → (f a).Yields Q) :
    (p >>= f).Yields Q := by
  intro s b rest hb
  obtain ⟨a, mid, ha, hb⟩ := bind_eq_ok_iff.1 hb
  exact hf a (h s a mid ha) mid b rest hb

/-- The values of a sequence where nothing is known about the first part. -/
theorem yields_bind {f : α → Rule β} (hf : ∀ a, (f a).Yields Q) : (p >>= f).Yields Q :=
  (yields_true p).bind fun a _ => hf a

theorem Yields.map {f : α → β} (h : p.Yields P) (hf : ∀ a, P a → Q (f a)) :
    (f <$> p).Yields Q := by
  intro s b rest hb
  obtain ⟨a, ha, rfl⟩ := map_eq_ok_iff.1 hb
  exact hf a (h s a rest ha)

theorem yields_firstOf {ps : List (Rule α)} (h : ∀ p ∈ ps, p.Yields P) : (firstOf ps).Yields P := by
  intro s a rest ha
  obtain ⟨p, hp, ha⟩ := exists_of_firstOf_eq_ok ha
  exact h p hp s a rest ha

theorem Yields.optional (h : p.Yields P) : p.optional.Yields fun o => ∀ a ∈ o, P a := by
  intro s o rest ho a ha
  rcases optional_eq_ok ho with ⟨b, rfl, hb⟩ | ⟨-, rfl, -⟩
  · cases ha
    exact h s a rest hb
  · cases ha

theorem yields_many (h : p.Yields P) : p.many.Yields fun as => ∀ a ∈ as, P a := by
  intro s as rest has
  fun_induction Rule.many p s generalizing as rest with
  | case1 s a mid hp hlt bs last hm ih =>
      cases has
      intro b hb
      rcases List.mem_cons.1 hb with rfl | hb
      · exact h s _ _ hp
      · exact ih bs _ hm b hb
  | case2 => cases has
  | case3 => cases has
  | case4 s a mid hp hnot => cases has; intro b hb; cases hb
  | case5 => cases has; intro b hb; cases hb
  | case6 => cases has

theorem yields_sepBy1 {sep : Rule β} (h : p.Yields P) :
    (sepBy1 sep p).Yields fun as => as ≠ [] ∧ ∀ a ∈ as, P a := by
  refine h.bind fun a ha => (yields_many (yields_bind fun _ => h)).bind fun as has => ?_
  refine yields_pure ⟨List.cons_ne_nil a as, fun b hb => ?_⟩
  rcases List.mem_cons.1 hb with rfl | hb
  · exact ha
  · exact has b hb

theorem Yields.commit (h : p.Yields P) : p.commit.Yields P :=
  fun s a rest ha => h s a rest (commit_eq_ok_iff.1 ha)

theorem Yields.within (h : p.Yields P) (name : Construct) : (p.within name).Yields P :=
  fun s a rest ha => h s a rest (within_eq_ok_iff.1 ha)

theorem yields_span1 (f : Char → Bool) :
    (span1 f).Yields fun t => t ≠ [] ∧ ∀ c ∈ t, f c = true := by
  intro s front rest h
  obtain ⟨hne, rfl, -⟩ := span1_eq_ok_iff.1 h
  exact ⟨hne, fun c hc => List.mem_takeWhile_imp hc⟩

/-! ### Repetition -/

theorem many_eq_cons {as : List α} {last : Text} (h : p s = .ok a rest)
    (hlt : rest.length < s.length) (hm : p.many rest = .ok as last) :
    p.many s = .ok (a :: as) last := by
  rw [many_of_ok h hlt, bind_of_ok hm]
  rfl

/-- A repetition stops where a value takes nothing. -/
theorem many_of_not_lt (h : p s = .ok a rest) (hlt : ¬ rest.length < s.length) :
    p.many s = .ok [] s := by
  rw [many, h]
  simp only [hlt, ↓reduceDIte]

/-- What a repetition reads after its first value. -/
theorem exists_of_many_eq_ok {bs : List α} {last : Text} (h : p s = .ok a rest)
    (hlt : rest.length < s.length) (hm : p.many s = .ok bs last) :
    ∃ as, bs = a :: as ∧ p.many rest = .ok as last := by
  rw [many_of_ok h hlt] at hm
  obtain ⟨as, mid, has, hpure⟩ := bind_eq_ok_iff.1 hm
  cases hpure
  exact ⟨as, rfl, has⟩

/-- The first value of a repetition, and those behind it. -/
theorem exists_of_many_ne_nil {as : List α} {last : Text} (hm : p.many s = .ok as last)
    (hne : as ≠ []) : ∃ a mid bs, as = a :: bs ∧ p s = .ok a mid ∧ p.many mid = .ok bs last := by
  cases hp : p s with
  | ok a mid =>
      by_cases hlt : mid.length < s.length
      · obtain ⟨bs, rfl, hbs⟩ := exists_of_many_eq_ok hp hlt hm
        exact ⟨a, mid, bs, rfl, rfl, hbs⟩
      · rw [many_of_not_lt hp hlt] at hm
        cases hm
        exact absurd rfl hne
  | mismatch why =>
      rw [many_of_mismatch hp] at hm
      cases hm
      exact absurd rfl hne
  | abort why =>
      rw [many_of_abort hp] at hm
      cases hm

/-! ### Written lists -/

/-- A rule reads the members of a list back from their text, except for those that are marred by
what is written behind them. -/
structure ReadsBack (p : Rule α) (value : α → Option β) (text : List β → Text) (P : β → Prop)
    (Marred : β → List β → Prop) : Prop where
  refuses_nil : p.Refuses (text [])
  read : ∀ b bs, P b → ¬ Marred b bs → ∃ a, p (text (b :: bs)) = .ok a (text bs) ∧ value a = some b
  length_lt : ∀ b bs, (text bs).length < (text (b :: bs)).length

/-- In the place of a marred member one with another key is read, or none. -/
def Misreads {γ : Type} (p : Rule α) (value : α → Option β) (key : β → Option γ)
    (text : List β → Text) (P : β → Prop) (Marred : β → List β → Prop) : Prop :=
  ∀ b bs, P b → Marred b bs → ∃ k, key b = some k ∧
    ∀ a rest, p (text (b :: bs)) = .ok a rest → ∃ k', (value a).bind key = some k' ∧ k' ≠ k

section ReadsBack

variable {value : α → Option β} {text : List β → Text} {Marred : β → List β → Prop} {bs : List β}

/-- Some member of the list is marred by what stands behind it. -/
def SomeMarred (Marred : β → List β → Prop) (bs : List β) : Prop :=
  ∃ front b back, bs = front ++ b :: back ∧ Marred b back

theorem someMarred_cons {b : β} :
    SomeMarred Marred (b :: bs) ↔ Marred b bs ∨ SomeMarred Marred bs := by
  constructor
  · rintro ⟨front, c, back, heq, hc⟩
    cases front with
    | nil =>
        cases heq
        exact .inl hc
    | cons d front =>
        cases heq
        exact .inr ⟨front, c, back, rfl, hc⟩
  · rintro (hb | ⟨front, c, back, rfl, hc⟩)
    · exact ⟨[], b, bs, rfl, hb⟩
    · exact ⟨b :: front, c, back, rfl, hc⟩

variable {P : β → Prop} (h : ReadsBack p value text P Marred)

include h

/-- A list without a marred member is read back. -/
theorem ReadsBack.many (hP : ∀ b ∈ bs, P b) (hnot : ¬ SomeMarred Marred bs) :
    ∃ as, p.many (text bs) = .ok as (text []) ∧ as.filterMap value = bs := by
  induction bs with
  | nil => exact ⟨[], h.refuses_nil.many, rfl⟩
  | cons b bs ih =>
      rw [someMarred_cons, not_or] at hnot
      obtain ⟨as, has, hvalue⟩ := ih (fun c hc => hP c (List.mem_cons_of_mem b hc)) hnot.2
      obtain ⟨a, ha, hb⟩ := h.read b bs (hP b List.mem_cons_self) hnot.1
      refine ⟨a :: as, many_eq_cons ha (h.length_lt b bs) has, ?_⟩
      rw [List.filterMap_cons, hb, hvalue]

/-- The keys of a list with a marred member are not read back. -/
theorem ReadsBack.many_of_marred {γ : Type} {key : β → Option γ}
    (hmis : Misreads p value key text P Marred) (hP : ∀ b ∈ bs, P b)
    (hsome : SomeMarred Marred bs) {as : List α} {last : Text}
    (hm : p.many (text bs) = .ok as last) :
    as.filterMap (fun a => (value a).bind key) ≠ bs.filterMap key := by
  induction bs generalizing as with
  | nil =>
      obtain ⟨front, b, back, hnil, -⟩ := hsome
      cases front <;> cases hnil
  | cons b bs ih =>
      have hb := hP b List.mem_cons_self
      intro heq
      by_cases hmarred : Marred b bs
      · -- at the marred member the keys differ, or the repetition has stopped
        obtain ⟨k, hk, hread⟩ := hmis b bs hb hmarred
        rw [List.filterMap_cons, hk] at heq
        have hne : as ≠ [] := by
          rintro rfl
          cases heq
        obtain ⟨a, rest, as', rfl, hp, -⟩ := exists_of_many_ne_nil hm hne
        obtain ⟨k', hk', hdiff⟩ := hread a rest hp
        rw [List.filterMap_cons, hk'] at heq
        exact hdiff (List.cons.inj heq).1
      · -- the member is read back, and the keys behind it differ by induction
        obtain ⟨a, ha, hvalue⟩ := h.read b bs hb hmarred
        obtain ⟨as', rfl, has'⟩ := exists_of_many_eq_ok ha (h.length_lt b bs) hm
        have htail : SomeMarred Marred bs := (someMarred_cons.1 hsome).resolve_left hmarred
        refine ih (fun c hc => hP c (List.mem_cons_of_mem b hc)) htail has' ?_
        rw [List.filterMap_cons, List.filterMap_cons, hvalue, Option.bind_some] at heq
        cases hk : key b with
        | none => rwa [hk] at heq
        | some k =>
            rw [hk] at heq
            exact (List.cons.inj heq).2

end ReadsBack

/-! ### Rules that never end the whole reading -/

/-- A rule that does not fit leaves the choice to the alternatives. -/
def Mild (p : Rule α) : Prop :=
  ∀ s why, p s ≠ .abort why

/-- A rule that never ends the whole reading refuses what it does not read. -/
theorem Mild.refuses (h : p.Mild) (hs : ∀ a rest, p s ≠ .ok a rest) : p.Refuses s := by
  cases hp : p s with
  | ok a rest => exact absurd hp (hs a rest)
  | mismatch why => exact ⟨why, hp⟩
  | abort why => exact absurd hp (h s why)

theorem mild_pure (a : α) : (pure a : Rule α).Mild :=
  fun _ _ h => by cases h

theorem Mild.bind {f : α → Rule β} (h : p.Mild) (hf : ∀ a, (f a).Mild) : (p >>= f).Mild := by
  intro s why hs
  rw [bind_apply] at hs
  cases hp : p s with
  | ok a rest => rw [hp] at hs; exact hf a rest why hs
  | mismatch why' => rw [hp] at hs; cases hs
  | abort why' => exact h s why' hp

theorem Mild.orElse (hp : p.Mild) (hq : q.Mild) : (p <|> q).Mild := by
  intro s why hs
  rw [orElse_apply] at hs
  cases h : p s with
  | ok a rest => rw [h] at hs; cases hs
  | mismatch why' => rw [h] at hs; exact hq s why hs
  | abort why' => exact hp s why' h

theorem Mild.optional (h : p.Mild) : p.optional.Mild := by
  intro s why hs
  rw [Rule.optional] at hs
  cases hp : p s with
  | ok a rest => rw [hp] at hs; cases hs
  | mismatch why' => rw [hp] at hs; cases hs
  | abort why' => exact h s why' hp

/-- What may be left out is either read or left out. -/
theorem Mild.optional_eq_ok (h : p.Mild) (s : Text) : ∃ o rest, p.optional s = .ok o rest := by
  cases hp : p s with
  | ok a rest => exact ⟨some a, rest, optional_of_ok hp⟩
  | mismatch why => exact ⟨none, s, optional_of_mismatch hp⟩
  | abort why => exact absurd hp (h s why)

theorem Mild.absent (h : p.Mild) : p.absent.Mild := by
  intro s why hs
  rw [Rule.absent] at hs
  cases hp : p s with
  | ok a rest => rw [hp] at hs; cases hs
  | mismatch why' => rw [hp] at hs; cases hs
  | abort why' => exact h s why' hp

theorem Mild.many (h : p.Mild) : p.many.Mild := by
  intro s why hs
  fun_induction Rule.many p s generalizing why with
  | case1 => cases hs
  | case2 => cases hs
  | case3 s a rest hp hlt why' hm ih => exact ih why' hm
  | case4 => cases hs
  | case5 => cases hs
  | case6 s why' hp => exact h s why' hp

theorem Mild.matched (h : p.Mild) : p.matched.Mild := by
  intro s why hs
  rw [Rule.matched] at hs
  cases hp : p s with
  | ok a rest => rw [hp] at hs; cases hs
  | mismatch why' => rw [hp] at hs; cases hs
  | abort why' => exact h s why' hp

theorem Mild.discard (h : p.Mild) : Mild (Functor.discard p) := by
  intro s why hs
  rw [discard_apply] at hs
  cases hp : p s with
  | ok a rest => rw [hp] at hs; cases hs
  | mismatch why' => rw [hp] at hs; cases hs
  | abort why' => exact h s why' hp

theorem mild_satisfy (f : Char → Bool) : (satisfy f).Mild := by
  intro s why hs
  cases s with
  | nil => cases hs
  | cons c t => rw [satisfy] at hs; split at hs <;> cases hs

theorem mild_span (f : Char → Bool) : (span f).Mild :=
  fun _ _ h => by cases h

theorem mild_span1 (f : Char → Bool) : (span1 f).Mild := by
  intro s why hs
  cases s with
  | nil => cases hs
  | cons c t => rw [span1] at hs; split at hs <;> cases hs

theorem mild_literal (word : String) : (literal word).Mild := by
  intro s why hs
  rw [literal] at hs
  split at hs <;> cases hs

theorem mild_upTo (mark : String) : (upTo mark).Mild := by
  intro s why hs
  rw [upTo] at hs
  split at hs <;> cases hs

theorem upTo_eq_ok {mark : String} {s t rest : Text} (h : upTo mark s = .ok t rest) :
    Text.splitBefore? mark.toList s = some (t, rest) := by
  rw [upTo] at h
  cases hsplit : Text.splitBefore? mark.toList s with
  | none =>
      rw [hsplit] at h
      cases h
  | some parts =>
      rw [hsplit] at h
      cases h
      rfl

end Rule

end SchemaDelta
