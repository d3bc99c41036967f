/-
**No two kinds of statement fit the same text.**

A choice takes the first alternative that fits, so that in general the order of the alternatives
matters.  It does not for the kinds of statement, nor for the kinds of column qualifier: where one
of them is read, every other one refuses.

Most of them start with different words, and no text starts with two of these.  One text stands for
a word that it does not spell, the sign for the kelvin, which is taken for `key`; but there is no
other word with this first letter.  The creation of a database and that of a table share their first
word and differ in the next one.

Main definitions:

* `SchemaDelta.Rule.Apart` — two rules that never fit the same text;
* `SchemaDelta.Rule.Unambiguous` — a choice whose order does not matter;
* `SchemaDelta.Rule.Announced` — a rule that is told by the words in front.

Main results:

* `SchemaDelta.Rule.unambiguous_of_apart` — alternatives that are apart may be tried in any order;
* `SchemaDelta.Rule.pairwise_apart_of_announced` — **rules with different words in front are
  apart**;
* `SchemaDelta.Source.apart_creations` — so are the two creations;
* `SchemaDelta.Source.unambiguous_statements_and_fieldQualifiers` — **the kinds of statement and of
  column qualifier are unambiguous**.
-/

import SchemaDelta.Proofs.Exchange.Statement
import SchemaDelta.Proofs.Keyword

set_option relaxedAutoImplicit false
set_option autoImplicit false

namespace SchemaDelta

namespace Rule

variable {α β : Type} {p : Rule α} {q : Rule β} {ps : List (Rule α)} {s rest : Text} {a : α}

/-! ### Choices in any order -/

/-- A rule reads something of a text. -/
def Fits (p : Rule α) (s : Text) : Prop :=
  ∃ a rest, p s = .ok a rest

/-- Where either of two rules reads something, the other one refuses. -/
def Apart (p : Rule α) (q : Rule β) : Prop :=
  ∀ s, (p.Fits s → q.Refuses s) ∧ (q.Fits s → p.Refuses s)

/-- At most one of the alternatives reads something of a text, and what is read is the same whatever
the order in which they are tried. -/
structure Unambiguous (ps : List (Rule α)) : Prop where
  /-- Two alternatives that read something of the same text are one. -/
  atMostOne : ∀ (s : Text) (i j : Nat) (p q : Rule α), ps[i]? = some p → ps[j]? = some q →
    p.Fits s → q.Fits s → i = j
  /-- In every order of the alternatives the same value is read, and the same text is left. -/
  anyOrder : ∀ qs : List (Rule α), qs.Perm ps → ∀ s a rest,
    firstOf qs s = .ok a rest ↔ firstOf ps s = .ok a rest

theorem Apart.symm (h : p.Apart q) : q.Apart p :=
  fun s => (h s).symm

theorem Apart.not_fits (h : p.Apart q) (hp : p.Fits s) : ¬ q.Fits s := by
  rintro ⟨b, rest, hq⟩
  exact ((h s).1 hp).ne_ok hq

theorem Apart.map_right {γ : Type} (h : p.Apart q) (f : β → γ) : p.Apart (f <$> q) := by
  intro s
  constructor
  · exact fun hp => ((h s).1 hp).map f
  · rintro ⟨c, rest, hc⟩
    obtain ⟨b, hb, -⟩ := map_eq_ok_iff.1 hc
    exact (h s).2 ⟨b, rest, hb⟩

/-- A choice between alternatives that are apart reads what any of them does. -/
theorem firstOf_eq_ok_iff_of_apart (h : ps.Pairwise Apart) :
    firstOf ps s = .ok a rest ↔ ∃ p ∈ ps, p s = .ok a rest := by
  constructor
  · exact exists_of_firstOf_eq_ok
  · rintro ⟨p, hp, hread⟩
    obtain ⟨front, back, rfl⟩ := List.append_of_mem hp
    have hfront := (List.pairwise_append.1 h).2.2
    refine firstOf_of_refuses (fun r hr => ?_) hread
    exact (hfront r hr p List.mem_cons_self s).2 ⟨a, rest, hread⟩

/-- **Alternatives that are apart may be tried in any order.** -/
theorem unambiguous_of_apart (h : ps.Pairwise Apart) : Unambiguous ps where
  atMostOne := by
    intro s i j p q hi hj hp hq
    obtain ⟨hilt, rfl⟩ := List.getElem?_eq_some_iff.1 hi
    obtain ⟨hjlt, rfl⟩ := List.getElem?_eq_some_iff.1 hj
    have hpair := List.pairwise_iff_getElem.1 h
    rcases Nat.lt_trichotomy i j with hlt | heq | hgt
    · exact absurd hq ((hpair i j hilt hjlt hlt).not_fits hp)
    · exact heq
    · exact absurd hp ((hpair j i hjlt hilt hgt).not_fits hq)
  anyOrder := by
    intro qs hperm s a rest
    have hqs : qs.Pairwise Apart := (hperm.pairwise_iff fun hpq => hpq.symm).2 h
    rw [firstOf_eq_ok_iff_of_apart hqs, firstOf_eq_ok_iff_of_apart h]
    constructor
    · rintro ⟨p, hp, hread⟩
      exact ⟨p, hperm.subset hp, hread⟩
    · rintro ⟨p, hp, hread⟩
      exact ⟨p, hperm.symm.subset hp, hread⟩

/-- Two neighbours that are related, in a list that is pairwise related without either of them. -/
theorem pairwise_neighbours {γ : Type} {R : γ → γ → Prop} {front back : List γ} {x y : γ}
    (hx : (front ++ x :: back).Pairwise R) (hy : (front ++ y :: back).Pairwise R) (hxy : R x y) :
    (front ++ x :: y :: back).Pairwise R := by
  rw [List.pairwise_append, List.pairwise_cons] at hx hy
  obtain ⟨hfront, ⟨hxback, hback⟩, hfrontx⟩ := hx
  obtain ⟨-, ⟨hyback, -⟩, hfronty⟩ := hy
  rw [List.pairwise_append, List.pairwise_cons, List.pairwise_cons]
  refine ⟨hfront, ⟨List.forall_mem_cons.2 ⟨hxy, hxback⟩, hyback, hback⟩, fun z hz w hw => ?_⟩
  rcases List.mem_cons.1 hw with rfl | hw
  · exact hfrontx z hz w List.mem_cons_self
  · exact hfronty z hz w hw

/-! ### Words in front -/

open Lexeme

variable {vs ws : List Text}

/-- A rule refuses every text that starts with none of the words, and what it reads starts with one
of them, or with the sign for the kelvin in place of `key`. -/
structure Announced (p : Rule α) (ws : List Text) : Prop where
  /-- Without one of the words the rule refuses. -/
  led : p.LedBy ws
  /-- One of the words is in front of what is read. -/
  front : ∀ s, p.Fits s →
    ∃ w ∈ ws, ∃ t u, s = t ++ u ∧ (t.lowered = w ∨ w = "key".toList ∧ t = [kelvinSign])

/-- No text that stands for the first word starts with the second one. -/
def Differs (v w : Text) : Prop :=
  v.agreesWith w = false ∧ (v = "key".toList → Text.agreesWith [kelvinSign] w = false)

instance (v w : Text) : Decidable (Differs v w) :=
  inferInstanceAs (Decidable (_ ∧ _))

theorem Announced.map (h : p.Announced ws) (f : α → β) : (f <$> p).Announced ws where
  led := h.led.map f
  front := by
    rintro s ⟨b, rest, hb⟩
    obtain ⟨a, ha, -⟩ := map_eq_ok_iff.1 hb
    exact h.front s ⟨a, rest, ha⟩

theorem Announced.bind (h : p.Announced ws) (f : α → Rule β) : (p >>= f).Announced ws where
  led := h.led.bind f
  front := by
    rintro s ⟨b, rest, hb⟩
    obtain ⟨a, mid, ha, -⟩ := bind_eq_ok_iff.1 hb
    exact h.front s ⟨a, mid, ha⟩

/-- Where the words of one rule are in front, a rule with different ones refuses. -/
theorem Announced.refuses (hp : p.Announced vs) (hq : q.Announced ws)
    (hdiff : ∀ v ∈ vs, ∀ w ∈ ws, Differs v w) (h : p.Fits s) : q.Refuses s := by
  obtain ⟨v, hv, t, u, rfl, ht⟩ := hp.front s h
  refine hq.led.refuses t (fun w hw => ?_) u
  obtain ⟨hspelled, hkelvin⟩ := hdiff v hv w hw
  rcases ht with rfl | ⟨hkey, rfl⟩
  · rwa [Text.agreesWith_lowered] at hspelled
  · exact hkelvin hkey

theorem Announced.apart (hp : p.Announced vs) (hq : q.Announced ws)
    (hdiff : ∀ v ∈ vs, ∀ w ∈ ws, Differs v w ∧ Differs w v) : p.Apart q :=
  fun _ => ⟨hp.refuses hq fun v hv w hw => (hdiff v hv w hw).1,
    hq.refuses hp fun w hw v hv => (hdiff v hv w hw).2⟩

/-- **Rules with different words in front are apart.** -/
theorem pairwise_apart_of_announced {wss : List (List Text)} (h : List.Forall₂ Announced ps wss)
    (hdiff : wss.Pairwise fun vs ws => ∀ v ∈ vs, ∀ w ∈ ws, Differs v w ∧ Differs w v) :
    ps.Pairwise Apart := by
  induction h with
  | nil => exact List.Pairwise.nil
  | @cons p vs ps wss hp h ih =>
      rw [List.pairwise_cons] at hdiff ⊢
      refine ⟨fun q hq => ?_, ih hdiff.2⟩
      obtain ⟨i, hi⟩ := List.mem_iff_getElem?.1 hq
      obtain ⟨hlt, rfl⟩ := List.getElem?_eq_some_iff.1 hi
      have hlt' : i < wss.length := h.length_eq ▸ hlt
      exact hp.apart ((List.forall₂_iff_get.1 h).2 i hlt hlt') (hdiff.1 _ (List.getElem_mem hlt'))

/-- A rule that starts with keywords is told by them. -/
theorem Heads.announced (hheads : p.Heads ws) (hled : p.LedBy ws) (hws : ∀ w ∈ ws, IsKeyword w) :
    p.Announced ws where
  led := hled
  front := by
    rintro s ⟨a, rest, h⟩
    obtain ⟨w, hw, -, t, mid, hread, -⟩ := hheads s a rest h
    obtain ⟨rfl, hstands⟩ := (wholeWord_eq_ok_iff_stands (hws w hw)).1 hread
    refine ⟨w, hw, t, mid, rfl, ?_⟩
    rcases hstands with ⟨ht, -⟩ | ⟨hkey, ht, -⟩
    · exact .inl ht
    · exact .inr ⟨hkey, ht⟩

theorem announced_keyword {word : String} (hword : IsKeyword word.toList) :
    (keyword word).Announced [word.toList] :=
  (heads_keyword hword.1).announced (ledBy_keyword word) (List.forall_mem_singleton.2 hword)

theorem announced_keywords {phrase : String} {word : Text} {words : List Text}
    (hphrase : Text.words phrase.toList = word :: words) (hword : IsKeyword word) :
    (keywords phrase).Announced [word] :=
  (heads_keywords hphrase hword.1).announced (ledBy_keywords hphrase)
    (List.forall_mem_singleton.2 hword)

theorem forall₂_announced_of_heads {wss : List (List Text)} (hheads : List.Forall₂ Heads ps wss)
    (hled : List.Forall₂ LedBy ps wss) (hwss : ∀ ws ∈ wss, ∀ w ∈ ws, IsKeyword w) :
    List.Forall₂ Announced ps wss := by
  induction hheads with
  | nil => exact .nil
  | cons hhead _ ih =>
      cases hled with
      | cons hpled hled =>
          rw [List.forall_mem_cons] at hwss
          exact .cons (hhead.announced hpled hwss.1) (ih hled hwss.2)

end Rule

namespace Source

open Rule Lexeme

/-! ### Qualifiers -/

theorem pairwise_apart_fieldQualifiers : fieldQualifiers.Pairwise Apart := by
  have hannounced := forall₂_announced_of_heads Exchange.heads_fieldQualifiers ledBy_fieldQualifiers
    (by decide)
  exact pairwise_apart_of_announced hannounced (by decide +kernel)

/-! ### Statements -/

/-- A comment is told by its mark. -/
theorem announced_comment : comment.Announced ["#".toList, "--".toList, "/*".toList] where
  led := ledBy_comment
  front := by
    rintro s ⟨t, rest, h⟩
    obtain ⟨rfl, ht⟩ := comment_eq_ok_iff.1 h
    cases ht with
    | @hash body =>
        exact ⟨_, List.mem_cons_self, ['#'], body ++ rest, rfl, .inl rfl⟩
    | @dashes body =>
        exact ⟨_, by simp, ['-', '-'], body ++ rest, rfl, .inl rfl⟩
    | @block body =>
        exact ⟨_, by simp, ['/', '*'], body ++ ['*', '/'] ++ rest, rfl, .inl rfl⟩

theorem announced_semicolon : (char ';').Announced [";".toList] where
  led := ledBy_char ';'
  front := by
    rintro s ⟨c, rest, h⟩
    obtain ⟨rfl, -⟩ := char_eq_ok_iff.1 h
    exact ⟨_, List.mem_cons_self, [';'], rest, rfl, .inl rfl⟩

/-- Each kind of statement is told by what it starts with. -/
theorem announced_statements : List.Forall₂ Announced statements statementWords := by
  refine .cons (announced_comment.map _) (.cons ((announced_keyword (by decide)).bind _) ?_)
  refine .cons ((announced_keyword (by decide)).bind _) ?_
  refine .cons ((announced_keywords rfl (by decide)).bind _) ?_
  refine .cons ((announced_keyword (by decide)).bind _) ?_
  refine .cons ((((announced_keyword (by decide)).bind _).bind _).map _) ?_
  refine .cons ((announced_keywords rfl (by decide)).bind _) ?_
  refine .cons ((announced_keyword (by decide)).bind _) ?_
  exact .cons ((announced_keyword (by decide)).bind _) (.cons (announced_semicolon.map _) .nil)

/-- **The creation of a database and that of a table are apart**: the words behind the first one
differ. -/
theorem apart_creations : createDatabase.Apart createTable := by
  have hdatabase : (keyword "database" <|> keyword "schema").Announced
      (["database".toList] ++ ["schema".toList]) :=
    ((heads_keyword (by decide)).orElse (heads_keyword (by decide))).announced
      ((ledBy_keyword _).orElse (ledBy_keyword _)) (by decide)
  have htemporary : (keyword "temporary").Apart (keyword "database" <|> keyword "schema") :=
    (announced_keyword (by decide)).apart hdatabase (by decide +kernel)
  have htable : (keyword "table").Apart (keyword "database" <|> keyword "schema") :=
    (announced_keyword (by decide)).apart hdatabase (by decide +kernel)
  intro s
  constructor
  · rintro ⟨st, rest, h⟩
    obtain ⟨create, m, hcreate, h⟩ := bind_eq_ok_iff.1 h
    obtain ⟨u, n, hgap, h⟩ := bind_eq_ok_iff.1 h
    obtain ⟨word, n', hread, -⟩ := bind_eq_ok_iff.1 h
    have hfits : (keyword "database" <|> keyword "schema").Fits n := ⟨word, n', hread⟩
    have hnot : (gap1 *> keyword "temporary").Refuses m :=
      refuses_bind_of_ok (f := fun _ => keyword "temporary") hgap ((htemporary n).2 hfits)
    have hstart : tableStart.Refuses s :=
      refuses_bind_of_ok hcreate (refuses_bind_of_ok hnot.optional
        (refuses_bind_of_ok hgap (((htable n).2 hfits).bind _)))
    exact hstart.bind _
  · rintro ⟨T, rest, h⟩
    obtain ⟨start, front, hstart, -⟩ := bind_eq_ok_iff.1 h
    obtain ⟨create, m, hcreate, h⟩ := bind_eq_ok_iff.1 hstart
    obtain ⟨o, m', ho, h⟩ := bind_eq_ok_iff.1 h
    obtain ⟨u, n, hgap, h⟩ := bind_eq_ok_iff.1 h
    obtain ⟨table, n', hread, -⟩ := bind_eq_ok_iff.1 h
    -- the word behind the gap is `temporary` or the one for a table
    have hnext : ∃ v, gap1 m = .ok () v ∧ (keyword "database" <|> keyword "schema").Refuses v := by
      rcases optional_eq_ok ho with ⟨temporary, -, hfront⟩ | ⟨-, -, rfl⟩
      · obtain ⟨_, v, hgap', hread'⟩ := bind_eq_ok_iff.1 hfront
        exact ⟨v, hgap', (htemporary v).1 ⟨temporary, m', hread'⟩⟩
      · exact ⟨n, hgap, (htable n).1 ⟨table, n', hread⟩⟩
    obtain ⟨v, hgap', hrefuses⟩ := hnext
    exact refuses_bind_of_ok hcreate (refuses_bind_of_ok hgap' (hrefuses.bind _))

theorem pairwise_apart_statements : statements.Pairwise Apart := by
  -- without either of the creations the words are all different
  have hdatabase : (statements.take 4 ++ createDatabase :: statements.drop 6).Pairwise Apart :=
    pairwise_apart_of_announced (List.rel_append (List.forall₂_take 5 announced_statements)
      (List.forall₂_drop 6 announced_statements)) (by decide +kernel)
  have htable : (statements.take 4 ++ Statement.createTable <$> createTable ::
      statements.drop 6).Pairwise Apart :=
    pairwise_apart_of_announced (List.rel_append (List.forall₂_take 4 announced_statements)
      (List.forall₂_drop 5 announced_statements)) (by decide +kernel)
  have hcreations : createDatabase.Apart (Statement.createTable <$> createTable) :=
    apart_creations.map_right _
  exact pairwise_neighbours hdatabase htable hcreations

/-- **The kinds of statement and of column qualifier are unambiguous**: of each, at most one fits a
text, and the choice between them is the same in every order. -/
theorem unambiguous_statements_and_fieldQualifiers :
    Unambiguous statements ∧ Unambiguous fieldQualifiers :=
  ⟨unambiguous_of_apart pairwise_apart_statements,
    unambiguous_of_apart pairwise_apart_fieldQualifiers⟩

/-- A statement that no other kind fits, and the sign for the kelvin, read in reverse order. -/
theorem unambiguous_reversed :
    (∀ i p, statements[i]? = some p → p.Fits "DELIMITER //".toList → i = 8) ∧
      firstOf statements.reverse "DELIMITER //".toList = .ok (.delimiter "//".toList) [] ∧
      firstOf fieldQualifiers.reverse "\u212A".toList = .ok .key [] := by
  have hdelimiter : delimiterStatement "DELIMITER //".toList = .ok (.delimiter "//".toList) [] := by
    decide +kernel
  have hkey : fieldQualifier "\u212A".toList = .ok .key [] := by
    decide +kernel
  obtain ⟨hstatements, hqualifiers⟩ := unambiguous_statements_and_fieldQualifiers
  have hread : statement "DELIMITER //".toList = .ok (.delimiter "//".toList) [] := by
    decide +kernel
  refine ⟨fun i p hi hp => ?_, ?_, ?_⟩
  · exact hstatements.atMostOne _ i 8 p _ hi rfl hp ⟨_, _, hdelimiter⟩
  · exact (hstatements.anyOrder _ (List.reverse_perm _) _ _ _).2 hread
  · exact (hqualifiers.anyOrder _ (List.reverse_perm _) _ _ _).2 hkey

end Source

end SchemaDelta
