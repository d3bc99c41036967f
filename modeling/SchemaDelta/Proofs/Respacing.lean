/-
**Other gaps between the words of a table.**

Where a written table has white space outside of quotes, another gap may stand: white space of any
kind and comments of any kind, as long as something stands there.  The text is read as before, with
one exception.  A dash belongs to a default that is kept as it is written, so that a line comment
that starts with two dashes right behind such a default is taken for a part of it; and a default
that starts with `now` may be completed to the time of the change.

Main definitions:

* `SchemaDelta.Text.Respaces`, `SchemaDelta.Text.Respaced` — a text with other gaps in the place of
  its white space;
* `SchemaDelta.Text.RunsOnIn`, `SchemaDelta.Text.ContinuedIn` — a default is changed by what stands
  behind it.

Main results:

* `SchemaDelta.Text.alignment_respaces` — what is left of a text and of the text with other gaps is
  aligned;
* `SchemaDelta.Schema.read_respaced` — **other gaps make no difference** where no default is
  changed;
* `SchemaDelta.Schema.exists_respaced_not_read` — a comment that is taken for a part of a default.
-/

import SchemaDelta.Proofs.Legibility

set_option relaxedAutoImplicit false
set_option autoImplicit false

namespace SchemaDelta

open Lexeme Source

namespace Text

/-! ### Texts with other gaps -/

/-- Up to the rests `s'` and `u'` the second text comes from the first one by putting gaps in the
place of white space outside of quotes. -/
inductive Respaces (s' u' : Text) : Text → Text → Prop where
  | refl : Respaces s' u' s' u'
  | bare {c : Char} {s u : Text} (hc : isBare c = true) (h : Respaces s' u' s u) :
      Respaces s' u' (c :: s) (c :: u)
  | name {body s u : Text} (hbody : backtick ∉ body) (h : Respaces s' u' s u) :
      Respaces s' u' (backtick :: (body ++ backtick :: s)) (backtick :: (body ++ backtick :: u))
  | string {q : Char} {body s u : Text} (hq : q = singleQuote ∨ q = doubleQuote)
      (hbody : splitAtQuote? q (body ++ [q]) = some (body, [])) (hs : ∀ c ∈ s.head?, c ≠ q)
      (h : Respaces s' u' s u) :
      Respaces s' u' (q :: (body ++ q :: s)) (q :: (body ++ q :: u))
  | spaces {w g s u : Text} (hne : w ≠ []) (hw : w.all isSpace = true) (hg : IsGap g)
      (h : Respaces s' u' s u) : Respaces s' u' (w ++ s) (g ++ u)

/-- The second text is the first one with gaps in the place of white space outside of quotes. -/
def Respaced (s u : Text) : Prop :=
  Respaces [] [] s u

variable {S U s u t v w body : Text} {c q : Char}

theorem Respaces.trans (h : Respaces s u S U) (h' : Respaces t v s u) : Respaces t v S U := by
  induction h with
  | refl => exact h'
  | bare hc _ ih => exact .bare hc ih
  | name hbody _ ih => exact .name hbody ih
  | string hq hbody hs _ ih => exact .string hq hbody hs ih
  | spaces hne hw hg _ ih => exact .spaces hne hw hg ih

theorem Respaces.suffix (h : Respaces s u S U) : u <:+ U := by
  induction h with
  | refl => exact List.suffix_rfl
  | bare _ _ ih => exact ih.trans (List.suffix_cons _ _)
  | @name body _ _ _ _ ih => exact ih.trans ⟨backtick :: (body ++ [backtick]), by simp⟩
  | @string q body _ _ _ _ _ _ ih => exact ih.trans ⟨q :: (body ++ [q]), by simp⟩
  | spaces _ _ _ _ ih => exact ih.trans (List.suffix_append _ _)

/-- A text without quotes is the same text with other gaps, in front of any two texts. -/
theorem respaces_of_quoteless (h : t.all (fun c => !isNameQuote c) = true) :
    Respaces s u (t ++ s) (t ++ u) := by
  induction t with
  | nil => exact .refl
  | cons c t ih =>
      rw [List.all_cons, Bool.and_eq_true] at h
      cases hc : isSpace c with
      | true =>
          have hall : [c].all isSpace = true := by simp [hc]
          exact .spaces (w := [c]) (g := [c]) (by simp) hall (.single (.space hc)) (ih h.2)
      | false => exact .bare (by simp [isBare, hc, h.1]) (ih h.2)

/-! ### What is left of both texts is aligned -/

section

variable (h : Respaced t u)

include h

theorem Respaced.of_nil (ht : t = []) : u = [] := by
  cases h with
  | refl => rfl
  | spaces hne => exact absurd (List.append_eq_nil_iff.1 ht).1 hne
  | _ => cases ht

theorem Respaced.head_eq (ht : t = c :: s) (hc : isSpace c = false) : ∃ v, u = c :: v := by
  cases h with
  | refl => cases ht
  | spaces hne hw =>
      obtain ⟨d, w, rfl⟩ := List.exists_cons_of_ne_nil hne
      cases ht
      simp [hc] at hw
  | _ => cases ht; exact ⟨_, rfl⟩

theorem Respaced.of_bare (ht : t = c :: s) (hc : isBare c = true) :
    ∃ v, u = c :: v ∧ Respaced s v := by
  simp only [isBare, Bool.and_eq_true, Bool.not_eq_true'] at hc
  cases h with
  | refl => cases ht
  | bare _ h => cases ht; exact ⟨_, rfl, h⟩
  | name => cases ht; exact absurd hc.2 (by decide)
  | string hq =>
      cases ht
      rcases hq with rfl | rfl <;> exact absurd hc.2 (by decide)
  | spaces hne hw =>
      obtain ⟨d, w, rfl⟩ := List.exists_cons_of_ne_nil hne
      cases ht
      simp [hc.1] at hw

theorem Respaced.of_name (ht : t = backtick :: (body ++ backtick :: s)) (hbody : backtick ∉ body) :
    ∃ v, u = backtick :: (body ++ backtick :: v) ∧ Respaced s v := by
  cases h with
  | refl => cases ht
  | bare hc => cases ht; exact absurd hc (by decide)
  | @name body' s' v hbody' h =>
      -- neither name has a backtick, so that both end at the same one
      have hspan : ∀ {b r : Text}, backtick ∉ b →
          (b ++ backtick :: r).takeWhile (· != backtick) = b := by
        intro b r hb
        rw [List.takeWhile_append_of_pos fun d hd => by
          rw [bne_iff_ne]; rintro rfl; exact hb hd]
        simp
      have heq := (List.cons.inj ht).2
      obtain rfl : body' = body := by
        rw [← hspan (r := s') hbody', heq, hspan hbody]
      cases List.append_cancel_left heq
      exact ⟨v, rfl, h⟩
  | string hq =>
      obtain ⟨rfl, -⟩ := List.cons.inj ht
      rcases hq with hq | hq <;> exact absurd hq (by decide)
  | spaces hne hw =>
      obtain ⟨d, w, rfl⟩ := List.exists_cons_of_ne_nil hne
      obtain ⟨rfl, -⟩ := List.cons.inj ht
      exact absurd (List.all_eq_true.1 hw backtick List.mem_cons_self) (by decide)

theorem Respaced.of_string (ht : t = q :: (body ++ q :: s)) (hq : q = singleQuote ∨ q = doubleQuote)
    (hbody : splitAtQuote? q (body ++ [q]) = some (body, [])) (hs : ∀ c ∈ s.head?, c ≠ q) :
    ∃ v, u = q :: (body ++ q :: v) ∧ Respaced s v := by
  have hbare : isBare q = false := by
    rcases hq with rfl | rfl <;> decide
  have hspace : isSpace q = false := by
    rcases hq with rfl | rfl <;> decide
  cases h with
  | refl => cases ht
  | bare hc => cases ht; rw [hbare] at hc; cases hc
  | name =>
      obtain ⟨rfl, -⟩ := List.cons.inj ht
      rcases hq with hq | hq <;> exact absurd hq (by decide)
  | @string q' body' s' v _ hbody' hs' h =>
      obtain rfl : q' = q := (List.cons.inj ht).1
      -- where a string ends is told by its quotes
      have heq := (List.cons.inj ht).2
      have hsplit := splitAtQuote?_append hbody' hs'
      rw [heq, splitAtQuote?_append hbody hs] at hsplit
      cases hsplit
      exact ⟨v, rfl, h⟩
  | spaces hne hw =>
      obtain ⟨d, w, rfl⟩ := List.exists_cons_of_ne_nil hne
      obtain ⟨rfl, -⟩ := List.cons.inj ht
      simp [hspace] at hw

theorem Respaced.of_spaces (ht : t = w ++ s) (hne : w ≠ []) (hw : w.all isSpace = true)
    (hs : ∀ c ∈ s.head?, isSpace c = false) : ∃ g v, IsGap g ∧ u = g ++ v ∧ Respaced s v := by
  -- white space may have been replaced piece by piece
  induction h generalizing w with
  | refl => exact absurd (List.append_eq_nil_iff.1 ht.symm).1 hne
  | bare hc =>
      obtain ⟨d, w, rfl⟩ := List.exists_cons_of_ne_nil hne
      obtain ⟨rfl, -⟩ := List.cons.inj ht
      simp only [isBare, Bool.and_eq_true, Bool.not_eq_true'] at hc
      simp [hc.1] at hw
  | name =>
      obtain ⟨d, w, rfl⟩ := List.exists_cons_of_ne_nil hne
      obtain ⟨rfl, -⟩ := List.cons.inj ht
      exact absurd (List.all_eq_true.1 hw backtick List.mem_cons_self) (by decide)
  | string hq =>
      obtain ⟨d, w, rfl⟩ := List.exists_cons_of_ne_nil hne
      obtain ⟨rfl, -⟩ := List.cons.inj ht
      have hspace := List.all_eq_true.1 hw _ List.mem_cons_self
      rcases hq with rfl | rfl <;> exact absurd hspace (by decide)
  | @spaces w' g s' v hne' hw' hg h ih =>
      rcases List.append_eq_append_iff.1 ht with ⟨m, rfl, rfl⟩ | ⟨m, rfl, rfl⟩
      · by_cases hm : m = []
        · subst hm
          exact ⟨g, v, hg, rfl, h⟩
        · rw [List.all_append, Bool.and_eq_true] at hw
          obtain ⟨g', v', hg', rfl, hv'⟩ := ih rfl hm hw.2
          exact ⟨g ++ g', v', hg.append hg', (List.append_assoc _ _ _).symm, hv'⟩
      · cases m with
        | nil => exact ⟨g, v, hg, rfl, h⟩
        | cons d m =>
            have hd := List.all_eq_true.1 hw' d (by simp)
            rw [hs d rfl] at hd
            cases hd

end

/-- **What is left of a text and of the same text with other gaps is aligned.** -/
theorem alignment_respaces (S U : Text) :
    Alignment fun s u => Respaces s u S U ∧ Respaced s u where
  nil h := h.2.of_nil rfl
  head h hc := h.2.head_eq rfl hc
  bare h hc := by
    obtain ⟨v, rfl, hv⟩ := h.2.of_bare rfl hc
    exact ⟨v, rfl, h.1.trans (.bare hc .refl), hv⟩
  name h hbody := by
    obtain ⟨v, rfl, hv⟩ := h.2.of_name rfl hbody
    exact ⟨v, rfl, h.1.trans (.name hbody .refl), hv⟩
  string h hq hbody hs := by
    obtain ⟨v, rfl, hv⟩ := h.2.of_string rfl hq hbody hs
    exact ⟨v, rfl, h.1.trans (.string hq hbody hs .refl), hv⟩
  spaces h hne hw hs := by
    obtain ⟨g, v, hg, rfl, hv⟩ := h.2.of_spaces rfl hne hw hs
    exact ⟨g, v, hg, rfl, h.1.trans (.spaces hne hw hg .refl), hv⟩

/-- So is what is left of one text outside of quotes. -/
theorem alignment_rest (S : Text) : Alignment fun s u => s = u ∧ Respaces s s S S :=
  Alignment.of_eq (fun h hc => h.trans (.bare hc .refl))
    (fun h hbody => h.trans (.name hbody .refl))
    (fun h hq hbody hs => h.trans (.string hq hbody hs .refl))
    fun h hne hw => h.trans (.spaces hne hw (isGap_of_spaces hne hw) .refl)

/-! ### Defaults that are changed -/

/-- The default stands in the text, and with what is behind it it reads as the time of the
change. -/
def RunsOnIn (S raw : Text) : Prop :=
  ∃ s, (∀ c ∈ s.head?, isTokenChar c = false) ∧
    Respaces ("DEFAULT ".toList ++ (raw ++ s)) ("DEFAULT ".toList ++ (raw ++ s)) S S ∧
      ReadsAsTime (raw ++ s)

/-- Where `S` has the default, something stands behind it in `U` that is taken for a part of it. -/
def ContinuedIn (S U raw : Text) : Prop :=
  ∃ g s u, IsGap g ∧ (∀ c ∈ s.head?, isTokenChar c = false) ∧
    Respaces ("DEFAULT ".toList ++ (raw ++ s)) ("DEFAULT".toList ++ (g ++ (raw ++ u))) S U ∧
      Continues raw u

/-- In one text nothing else but a call behind a default changes it. -/
theorem intact_of_not_runsOnIn {raw : Text} (h : ¬ RunsOnIn S raw) :
    Decorated.Intact (fun s u => s = u ∧ Respaces s s S S) raw := by
  rintro g s u - hs ⟨heq, hall⟩ ⟨rfl, -⟩ (⟨v, rfl⟩ | htime)
  · exact absurd (hs '-' rfl) (by decide)
  · exact h ⟨s, hs, hall, htime⟩

theorem intact_of_not_continuedIn {raw : Text} (h : ¬ ContinuedIn S U raw) :
    Decorated.Intact (fun s u => Respaces s u S U ∧ Respaced s u) raw :=
  fun g s u hg hs hall _ hcontinues => h ⟨g, s, u, hg, hs, hall.1, hcontinues⟩

end Text

namespace Schema

open Text Decorated

/-- **Other gaps make no difference**: a written table that is read, with gaps of any kind in the
place of its white space, is read as the same statement, if no default is changed. -/
theorem read_respaced {source : Text} {s s' : Schema} {t : SchemaDelta.Table} {u : Text}
    (hs : Schema.read source .mysql = .ok s) (ht : t ∈ s.tables)
    (hqualifiers : ∀ f ∈ t.fields, ∀ q ∈ f.qualifiers, q.Plain)
    (hread : Schema.read (Generator.mysql.createTable t) .mysql = .ok s')
    (hu : Respaced (Generator.mysql.createTable t) u)
    (hdefaults : ∀ f ∈ t.fields, ∀ raw, .default (.unclassified raw) ∈ f.qualifiers →
      ¬ RunsOnIn (Generator.mysql.createTable t) raw ∧
        ¬ ContinuedIn (Generator.mysql.createTable t) u raw) :
    Schema.read u .mysql = .ok s' := by
  have hwell := wellFormed_of_read hs t ht
  have hintact : TableIntact _ t := fun f hf raw hraw =>
    intact_of_not_runsOnIn (hdefaults f hf raw hraw).1
  have hintact' : TableIntact _ t := fun f hf raw hraw =>
    intact_of_not_continuedIn (hdefaults f hf raw hraw).2
  obtain ⟨hne, hlegible⟩ := Source.legible_of_read (alignment_rest _) (fun _ _ h => h.1) hwell
    hqualifiers hintact ⟨rfl, .refl⟩ hread
  have hshape := Table.text_plain t hne
  -- both texts are read as the table, with its types in lower case
  have hself := read_of_alignment (d := .plain t hne) (alignment_rest _) hwell hlegible (.inl rfl)
    hintact ⟨hshape, hshape ▸ .refl⟩
  have hother := read_of_alignment (d := .plain t hne) (alignment_respaces _ _) hwell hlegible
    (.inl rfl) hintact' ⟨hshape ▸ .refl, hshape ▸ hu⟩
  rw [← hread, hself, hother]

/-- A table with a default that is kept as it is written. -/
def respacedTable : SchemaDelta.Table where
  name := ['t']
  fields := [{ name := ['a'], type := "int".toList, args := [],
               qualifiers := [.default (.unclassified ['5']), .notNull] }]
  declared := []

/-- Its text up to the gap behind the default, and from there on. -/
theorem respaced_respacedTable {g : Text} (hg : IsGap g) :
    Respaced (Generator.mysql.createTable respacedTable)
      ("CREATE TABLE `t` (\n  `a` INT DEFAULT 5".toList ++ (g ++ "NOT NULL\n);".toList)) := by
  have hend : Respaced "NOT NULL\n);".toList "NOT NULL\n);".toList :=
    respaces_of_quoteless (s := []) (u := []) (t := "NOT NULL\n);".toList) (by decide)
  have hgap : Respaced (' ' :: "NOT NULL\n);".toList) (g ++ "NOT NULL\n);".toList) :=
    .spaces (w := [' ']) (by decide) (by decide) hg hend
  have hcolumn := (respaces_of_quoteless (t := " INT DEFAULT 5".toList) (by decide)).trans hgap
  have hlist := (respaces_of_quoteless (t := " (\n  ".toList) (by decide)).trans
    (@Respaces.name _ _ ['a'] _ _ (by decide) hcolumn)
  exact (respaces_of_quoteless (t := "CREATE TABLE ".toList) (by decide)).trans
    (@Respaces.name _ _ ['t'] _ _ (by decide) hlist)

theorem read_respacedTable :
    Schema.read (Generator.mysql.createTable respacedTable) .mysql =
      .ok ⟨[.createTable respacedTable]⟩ :=
  read_of_toOption (by decide +kernel)

theorem read_respaced_sample :
    Schema.read "CREATE TABLE `t` (\n  `a` INT DEFAULT 5/* c */# d\nNOT NULL\n);".toList .mysql =
      .ok ⟨[.createTable respacedTable]⟩ := by
  have hgap : IsGap "/* c */# d\n".toList :=
    .cons (p := "/* c */".toList) (@IsSeparator.block " c ".toList (by decide))
      (.single (@IsSeparator.hash " d".toList (by decide)))
  refine read_respaced read_respacedTable (List.mem_singleton.2 rfl) (by decide) read_respacedTable
    (respaced_respacedTable hgap) fun f hf raw hraw => ?_
  -- a digit is no word for the time, and there is no dash at all
  obtain rfl : f = _ := List.mem_singleton.1 hf
  obtain rfl : raw = ['5'] := by simpa [respacedTable] using hraw
  have htime : ∀ u, ¬ ReadsAsTime (['5'] ++ u) := not_readsAsTime_cons (c := '5') (by decide)
  refine ⟨fun ⟨s, _, _, h⟩ => htime s h, ?_⟩
  rintro ⟨g, s, u, -, -, hall, ⟨t, rfl⟩ | h⟩
  · have hdash := hall.suffix.subset (a := '-') (by simp)
    exact absurd hdash (by decide)
  · exact htime u h

/-- **The dashes of a comment right behind a default are taken for a part of it**, and the rest of
the comment for what follows. -/
theorem exists_respaced_not_read :
    ∃ source s t u, Schema.read source .mysql = .ok s ∧ t ∈ s.tables ∧
      Schema.read (Generator.mysql.createTable t) .mysql = .ok s ∧
      Respaced (Generator.mysql.createTable t) u ∧ ∀ s', Schema.read u .mysql ≠ .ok s' := by
  have hgap : IsGap "-- c\n ".toList :=
    .cons (p := "-- c\n".toList) (@IsSeparator.dashes " c".toList (by decide))
      (.single (.space (c := ' ') (by decide)))
  have hnone : (Schema.read ("CREATE TABLE `t` (\n  `a` INT DEFAULT 5".toList ++
      ("-- c\n ".toList ++ "NOT NULL\n);".toList)) .mysql).toOption = none := by
    decide +kernel
  refine ⟨_, _, respacedTable, _, read_respacedTable, List.mem_singleton.2 rfl, read_respacedTable,
    respaced_respacedTable hgap, fun s' h => ?_⟩
  rw [h] at hnone
  cases hnone

end Schema

end SchemaDelta
