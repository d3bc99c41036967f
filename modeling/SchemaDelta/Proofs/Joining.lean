/-
**Schema texts are joined with a line end between them.**

Two texts that are read are read one behind the other, provided that the first one opens no comment
that it does not close, and that each of its columns is a column with the second text behind it as
well.  The line end keeps words and lines apart.  What the second text starts with is a statement,
so it goes on with nothing that was left open in front of it: no action ends with one of its words,
and no call with a parenthesis of its own.

A column may be lost, since a quote that is not closed in the first text may be closed in the second
one.  So `key enum('a\\',')` is a column of its own, and the start of an index in front of a quote.

Main definitions:

* `SchemaDelta.Source.CommentsClosed` — every comment that a text opens is closed in it;
* `SchemaDelta.Exchange.followed` — a line end and another text are put behind a text.

Main results:

* `SchemaDelta.Exchange.fair_followed` — this is fair where comments are closed;
* `SchemaDelta.Source.read_append_iff` — **two texts are read one behind the other** exactly if the
  columns of the first one stay columns;
* `SchemaDelta.Source.read_append_of_words` — in particular if none of them starts like an index;
* `SchemaDelta.Source.not_read_append` — a column that does not.
-/

import Mathlib.Data.List.DropRight
import Mathlib.Data.List.Infix
import SchemaDelta.Proofs.Exchange.Reading
import SchemaDelta.Proofs.Separator

set_option relaxedAutoImplicit false
set_option autoImplicit false

namespace SchemaDelta

namespace Rule

variable {f : Char → Bool} {s : Text}

theorem refuses_satisfy_of_head (h : ∀ c ∈ s.head?, f c = false) : (satisfy f).Refuses s := by
  cases s with
  | nil => exact ⟨_, rfl⟩
  | cons c t => exact refuses_satisfy (h c rfl)

theorem refuses_span1_of_head (h : ∀ c ∈ s.head?, f c = false) : (span1 f).Refuses s := by
  cases s with
  | nil => exact ⟨_, rfl⟩
  | cons c t => exact refuses_span1 (h c rfl)

end Rule

namespace Lexeme

open Rule

variable {s t r m v b : Text}

/-! ### Gaps in front of a line end -/

/-- With a line end and more text behind, a gap goes on from where it has ended. -/
theorem gap0_append_break (h : gap0 s = .ok () m) (b : Text) :
    gap0 (s ++ '\n' :: b) = gap0 (m ++ '\n' :: b) := by
  refine gap0_induction (P := fun u => gap0 (u ++ '\n' :: b) = gap0 (m ++ '\n' :: b)) h rfl ?_ ?_
  · intro u t v hspaces ih
    obtain ⟨-, -, rfl⟩ := span1_eq_ok_iff.1 hspaces
    rw [← ih, ← gap0_dropWhile, ← gap0_dropWhile (u.dropWhile isSpace ++ '\n' :: b),
      List.dropWhile_append, List.dropWhile_append, List.dropWhile_idempotent]
  · intro u t v hcomment ih
    have hbroken : (Exchange.appended u ('\n' :: b)).Broken := fun c hc => by cases hc; rfl
    have hnew := hbroken.keeps_comment.append (L := fun _ => True) trivial hcomment
    exact (gap0_of_gap (gap_of_comment hnew)).trans ih

/-- A mark without a line end is not found across one. -/
theorem prefix_of_literal_append {word : String} (hword : '\n' ∉ word.toList)
    (h : literal word (s ++ '\n' :: b) = .ok t r) : word.toList <+: s := by
  rw [literal] at h
  split at h
  · next hprefix =>
    obtain ⟨u, hu⟩ := List.isPrefixOf_iff_prefix.1 hprefix
    rcases List.append_eq_append_iff.1 hu with ⟨v, hs, -⟩ | ⟨v, hv, hbreak⟩
    · exact ⟨v, hs.symm⟩
    · cases v with
      | nil => exact ⟨[], by rw [hv, List.append_nil, List.append_nil]⟩
      | cons c v =>
        cases hbreak
        exact absurd (hv ▸ List.mem_append_right s List.mem_cons_self) hword
  · cases h

/-- A keyword that is read up to the line end or beyond it is read without what follows. -/
theorem exists_keyword_of_append {word : String} (hplain : word.toList.all isPlainLetter = true)
    (hword : IsWord word.toList) (h : keyword word (s ++ '\n' :: b) = .ok t r) :
    ∃ r', keyword word s = .ok t r' := by
  obtain ⟨-, -, hchars, -⟩ := wordChars_of_wholeWord hword h
  obtain ⟨⟨heq, hletters⟩, hends⟩ := (keyword_eq_ok_iff hplain).1 h
  rcases List.append_eq_append_iff.1 heq with ⟨v, rfl, hbreak⟩ | ⟨v, rfl, rfl⟩
  · cases v with
    | nil => exact ⟨[], (keyword_eq_ok_iff hplain).2 ⟨⟨by simp, hletters⟩, fun c hc => by cases hc⟩⟩
    | cons c v =>
      cases hbreak
      have hbreak := hchars '\n' (List.mem_append_right s List.mem_cons_self)
      exact absurd hbreak (by decide)
  · exact ⟨v, (keyword_eq_ok_iff hplain).2 ⟨⟨rfl, hletters⟩, hends.of_append⟩⟩

end Lexeme

namespace Source

open Rule Lexeme

variable {s t r e b : Text} {ss : List Statement}

/-! ### How a text that is read starts -/

theorem isBlankChar_of_isSpace {c : Char} (h : isSpace c = true) : Text.isBlankChar c = true := by
  simp only [isSpace, Bool.or_eq_true, beq_iff_eq] at h
  rcases h with ((rfl | rfl) | rfl) | rfl <;> decide

/-- White space in front does not matter. -/
theorem readStatements_congr (h : s.trimStart = t.trimStart) :
    readStatements s = readStatements t := by
  cases hst : statement t.trimStart with
  | ok st rest => rw [readStatements_of_statement hst, readStatements_of_statement (h ▸ hst)]
  | mismatch why =>
    rw [readStatements, readStatements, h]
    cases htrim : t.trimStart with
    | nil => rfl
    | cons c u => rw [htrim] at hst; simp only [hst]
  | abort why =>
    rw [readStatements, readStatements, h]
    cases htrim : t.trimStart with
    | nil => rfl
    | cons c u => rw [htrim] at hst; simp only [hst]

/-- A text that is read is read from behind a gap on as well: the comments in it are statements. -/
theorem exists_readStatements_of_gap0 (hgap : gap0 s = .ok () e) (h : readStatements s = .ok ss) :
    ∃ ss', readStatements e = .ok ss' := by
  refine gap0_induction (P := fun u => ∀ ss, readStatements u = .ok ss →
    ∃ ss', readStatements e = .ok ss') hgap (fun ss h => ⟨ss, h⟩) ?_ ?_ ss h
  · intro u t v hspaces ih ss h
    obtain ⟨-, -, rfl⟩ := span1_eq_ok_iff.1 hspaces
    refine ih ss (h ▸ readStatements_congr ?_)
    conv_rhs => rw [← List.takeWhile_append_dropWhile (p := isSpace) (l := u)]
    exact (List.dropWhile_append_of_pos fun c hc =>
      isBlankChar_of_isSpace (List.mem_takeWhile_imp hc)).symm
  · intro u t v hcomment ih ss h
    obtain ⟨c, w, rfl, ⟨hstart, hspace⟩, -⟩ := starts_comment u t v hcomment
    have hc : Text.isBlankChar c = false := by
      simp only [isGapStart, hspace, Bool.false_or, Bool.or_eq_true, beq_iff_eq] at hstart
      rcases hstart with (rfl | rfl) | rfl <;> decide
    have hst : statement (Text.trimStart (c :: w)) = .ok (.comment t) v := by
      rw [trimStart_cons hc]
      exact orElse_of_ok (map_eq_ok_iff.2 ⟨t, hcomment, rfl⟩) _
    rw [readStatements_of_statement hst] at h
    cases hv : readStatements v with
    | error why => rw [hv] at h; cases h
    | ok ss' => exact ih ss' hv

/-- A text that is read starts like a statement. -/
theorem readStatements_ne_ok {c : Char} (hc : Text.isBlankChar c = false)
    (hdiff : ∀ ws ∈ statementWords, ∀ w ∈ ws, Text.agreesWith (c :: t) w = false) (r : Text) :
    readStatements (c :: t ++ r) ≠ .ok ss := by
  intro h
  have hrefuses : statement.Refuses (c :: t ++ r) := by
    refine refuses_firstOf fun p hp => ?_
    obtain ⟨ws, hws, hled⟩ := exists_ledBy_of_mem ledBy_statements hp
    exact hled.refuses (c :: t) (hdiff ws hws) r
  have htrim : Text.trimStart (c :: t ++ r) = c :: t ++ r := trimStart_cons hc (t ++ r)
  cases ss with
  | nil =>
    rw [readStatements, htrim] at h
    obtain ⟨why, hwhy⟩ := hrefuses
    rw [List.cons_append] at hwhy h
    simp only [hwhy] at h
    cases h
  | cons st ss =>
    obtain ⟨rest, hst, -⟩ := exists_of_readStatements h
    obtain ⟨why, hwhy⟩ := hrefuses
    rw [htrim, hwhy] at hst
    cases hst

/-- The characters of a call without arguments. -/
def isCallChar (c : Char) : Bool :=
  c == '(' || c == ')' || c.isDigit

theorem isCallChar_eq_false {c : Char} :
    isCallChar c = false ↔ (c == '(') = false ∧ (c == ')') = false ∧ c.isDigit = false := by
  rw [isCallChar, Bool.or_eq_false_iff, Bool.or_eq_false_iff, and_assoc]

/-- No text that is read starts with a part of a call. -/
theorem head_of_readStatements (h : readStatements e = .ok ss) :
    ∀ c ∈ e.head?, isCallChar c = false := by
  intro c hc
  cases e with
  | nil => cases hc
  | cons d u =>
    cases hc
    by_contra hcall
    rw [Bool.not_eq_false] at hcall
    have hascii : c.toNat < 128 := by
      simp only [isCallChar, Char.isDigit, Bool.or_eq_true, Bool.and_eq_true, beq_iff_eq,
        decide_eq_true_eq] at hcall
      rcases hcall with (rfl | rfl) | ⟨-, hdigit⟩
      · decide
      · decide
      · exact Nat.lt_of_le_of_lt hdigit (by decide)
    have hmark := forall_ascii (P := fun c => isCallChar c = true → Text.isBlankChar c = false ∧
      ∀ ws ∈ statementWords, ∀ w ∈ ws, Text.agreesWith [c] w = false) (by decide) hascii hcall
    exact readStatements_ne_ok hmark.1 hmark.2 u h

/-- Nor does a word that no statement starts with. -/
theorem refuses_keyword_of_readStatements (h : readStatements e = .ok ss) {word : String}
    (hplain : word.toList.all isPlainLetter = true) (hword : IsWord word.toList)
    (hdiff : ∀ ws ∈ statementWords, ∀ w ∈ ws, Text.agreesWith word.toList w = false) :
    (keyword word).Refuses e := by
  refine (mild_keyword word).refuses fun t r hread => ?_
  obtain ⟨-, hne, hchars, -⟩ := wordChars_of_wholeWord hword hread
  obtain ⟨⟨rfl, hletters⟩, -⟩ := (keyword_eq_ok_iff hplain).1 hread
  have hspells := spells_of_map_lowerChar (List.all_eq_true.1 hplain) hletters
  cases t with
  | nil => exact hne rfl
  | cons c t =>
    exact readStatements_ne_ok (isBlankChar_of_isWordChar (hchars c List.mem_cons_self))
      (fun ws hws w hw => hspells.agreesWith (hdiff ws hws w hw)) r h

/-! ### Comments -/

/-- Every mark that opens a comment is followed by one that closes it. -/
def CommentsClosed (text : Text) : Prop :=
  ∀ s ∈ text.tails, "/*".toList <+: s → "*/".toList <:+: s.drop 2

instance : DecidablePred CommentsClosed := fun text =>
  inferInstanceAs (Decidable (∀ s ∈ text.tails, "/*".toList <+: s → "*/".toList <:+: s.drop 2))

/-- What opens a comment in front of a line end is one in front of it already. -/
theorem CommentsClosed.exists_comment (hclosed : CommentsClosed t) (hs : s <:+ t)
    (h : comment (s ++ '\n' :: b) = .ok r e) : ∃ r' e', comment s = .ok r' e' := by
  have hline : ∀ {mark m}, (literal "#" <|> literal "--") s = .ok mark m →
      ∃ r' e', comment s = .ok r' e' := fun hmark =>
    ⟨_, _, orElse_of_ok (by rw [lineComment, matched, bind_of_ok hmark]; rfl) _⟩
  rcases orElse_eq_ok h with h | ⟨-, h⟩
  · obtain ⟨u, h, -⟩ := matched_eq_ok h
    obtain ⟨mark, mid, hmark, -⟩ := bind_eq_ok_iff.1 h
    rcases orElse_eq_ok hmark with hmark | ⟨-, hmark⟩
    · obtain ⟨v, rfl⟩ := prefix_of_literal_append (by decide) hmark
      exact hline (orElse_of_ok (literal_append "#" v) _)
    · obtain ⟨v, rfl⟩ := prefix_of_literal_append (by decide) hmark
      have hother : (literal "#").Refuses ("--".toList ++ v) := refuses_literal rfl
      exact hline ((hother.orElse_apply _).trans (literal_append "--" v))
  · obtain ⟨u, h, -⟩ := matched_eq_ok h
    obtain ⟨mark, mid, hmark, -⟩ := bind_eq_ok_iff.1 h
    obtain ⟨v, rfl⟩ := prefix_of_literal_append (by decide) hmark
    have hclose : "*/".toList <:+: v := hclosed _ ((List.mem_tails _ _).2 hs) (List.prefix_append _ v)
    obtain ⟨front, rest, hsplit⟩ := Text.splitBefore?_of_infix hclose
    have hupTo : upTo "*/" v = .ok front ("*/".toList ++ rest) := by rw [upTo, hsplit]
    have hother : lineComment.Refuses ("/*".toList ++ v) :=
      (((refuses_literal rfl).orElse (refuses_literal rfl)).bind _).matched
    have hblock : ∃ r', blockComment ("/*".toList ++ v) = .ok r' rest := by
      rw [blockComment, matched, bind_of_ok (literal_append "/*" v), bind_of_ok hupTo,
        literal_append]
      exact ⟨_, rfl⟩
    obtain ⟨r', hblock⟩ := hblock
    exact ⟨r', rest, (hother.orElse_apply _).trans hblock⟩

end Source

namespace Exchange

open Rule Lexeme Source

variable {α : Type} {p : Rule α} {a b s m e : Text} {tb : List Source.Statement}

/-- A line end and another text are put behind a text. -/
abbrev followed (front behind : Text) : Exchange :=
  appended front ('\n' :: behind)

theorem broken_followed : (followed a b).Broken :=
  fun c hc => by cases hc; rfl

theorem Broken.staysOut_span1 {x : Exchange} (hx : x.Broken) {f : Char → Bool}
    (hf : f '\n' = false) : x.StaysOut (span1 f) s := by
  by_cases hs : s = []
  · subst hs
    exact fun _ => refuses_span1_of_head (hx.head hf)
  · exact Exchange.staysOut_span1 f hs

theorem keepsComments_followed (hclosed : CommentsClosed a) : (followed a b).KeepsComments := by
  refine fun s hs => staysOut_of_mild mild_comment fun r e h hrefuses => ?_
  obtain ⟨r', e', hold⟩ := hclosed.exists_comment hs h
  exact (refuses_appended.1 hrefuses).ne_ok hold

/-! ### What gaps lead to -/

section Gaps

variable (hclosed : CommentsClosed a) (hend : gap0 ('\n' :: b) = .ok () e)

include hclosed hend

/-- What is refused behind a gap stays out: where the gap ends in the front, and where it runs on to
the statements of the other text. -/
theorem staysOut_gap0_followed {f : Unit → Rule α} (hs : s <:+ a)
    (hf : ∀ m, m <:+ s → m ≠ [] → (followed a b).StaysOut (f ()) m) (he : (f ()).Refuses e) :
    (followed a b).StaysOut (gap0 >>= f) s := by
  obtain ⟨m, hgap⟩ := exists_gap0 s
  have hm : m <:+ s := Tails.suffix s () m hgap
  by_cases hne : m = []
  · intro _
    have hnew := gap0_append_break hgap b
    rw [hne, List.nil_append, hend] at hnew
    exact refuses_bind_of_ok hnew he
  · exact (keepsComments_followed hclosed).keeps_gap0.staysOut_bind hs hne (reads_appended.2 hgap)
      (hf m hm hne)

theorem staysOut_gap1_followed {f : Unit → Rule α} (hs : s <:+ a)
    (hf : ∀ m, m <:+ s → m ≠ [] → (followed a b).StaysOut (f ()) m) (he : (f ()).Refuses e) :
    (followed a b).StaysOut (gap1 >>= f) s := by
  obtain ⟨m, hgap⟩ := exists_gap0 s
  have hm : m <:+ s := Tails.suffix s () m hgap
  by_cases hne : m = []
  · intro _
    have hnew := gap0_append_break hgap b
    rw [hne, List.nil_append, hend] at hnew
    cases hgap1 : gap1 (s ++ '\n' :: b) with
    | ok u m' =>
      have hsame := gap0_of_gap1 hgap1
      rw [hnew, Outcome.ok.injEq] at hsame
      exact refuses_bind_of_ok hgap1 (hsame.2 ▸ he)
    | mismatch why => exact Refuses.bind (p := gap1) ⟨why, hgap1⟩ f
    | abort why => exact absurd hgap1 (mild_gap1 _ why)
  · exact (keepsComments_followed hclosed).staysOut_gap1_bind hs
      (reads_appended.2 hgap) hne (hf m hm hne)

end Gaps

/-! ### Words and calls -/

theorem staysOut_keyword_followed {word : String} (hplain : word.toList.all isPlainLetter = true)
    (hword : IsWord word.toList) : (followed a b).StaysOut (keyword word) s := by
  refine staysOut_of_mild (mild_keyword word) fun t r h hrefuses => ?_
  obtain ⟨r', hold⟩ := exists_keyword_of_append hplain hword h
  exact (refuses_appended.1 hrefuses).ne_ok hold

/-- The parentheses of a call are not closed behind the front. -/
theorem staysOut_callEnd_followed (hclosed : CommentsClosed a)
    (hend : gap0 ('\n' :: b) = .ok () e) (hparen : (char ')').Refuses e) (hs : s <:+ a) :
    (followed a b).StaysOut callEnd s :=
  staysOut_gap0_followed (f := fun _ => char ')' >>= fun _ => pure ()) hclosed hend hs
    (fun _ _ hm => StaysOut.map (staysOut_satisfy _ hm) _) (hparen.bind _)

/-- What a call has between its parentheses: digits that may be left out. -/
def callInside : Rule Unit := do
  let _ ← Rule.optional digits1
  callEnd

theorem emptyCall_eq : emptyCall = char '(' >>= fun _ => gap0 >>= fun _ => callInside :=
  rfl

theorem staysOut_callInside_followed (hclosed : CommentsClosed a)
    (hend : gap0 ('\n' :: b) = .ok () e) (hparen : (char ')').Refuses e) (hs : s <:+ a) :
    (followed a b).StaysOut callInside s := by
  have hdigits : (followed a b).Keeps digits1 fun _ => True :=
    keeps_span1_of_head (broken_followed.head (by decide))
  have hoptional := hdigits.optional fun s _ _ => broken_followed.staysOut_span1 (by decide)
  obtain ⟨o, m, ho⟩ := (mild_span1 Char.isDigit).optional_eq_ok s
  have hm : m <:+ s := Tails.suffix (p := Rule.optional digits1) s o m ho
  exact hoptional.staysOut_bind hs trivial (reads_appended.2 ho)
    (staysOut_callEnd_followed hclosed hend hparen (hm.trans hs))

/-- Nor is a call opened there, or its digits put there. -/
theorem staysOut_emptyCall_followed (hclosed : CommentsClosed a)
    (hend : gap0 ('\n' :: b) = .ok () e) (he : ∀ c ∈ e.head?, isCallChar c = false)
    (hs : s <:+ a) (hne : s ≠ []) : (followed a b).StaysOut emptyCall s := by
  have hparen : (char ')').Refuses e :=
    refuses_satisfy_of_head fun c hc => (isCallChar_eq_false.1 (he c hc)).2.1
  have hdigits : digits1.Refuses e :=
    refuses_span1_of_head fun c hc => (isCallChar_eq_false.1 (he c hc)).2.2
  have hinside : callInside.Refuses e :=
    refuses_bind_of_ok hdigits.optional
      (refuses_bind_of_ok (gap0_of_solid (solid_of_gap0 hend)) (hparen.bind _))
  rw [emptyCall_eq]
  refine StaysOut.bind (staysOut_satisfy _ hne) fun c rest hopen hrefuses => ?_
  cases s with
  | nil => exact absurd rfl hne
  | cons d t =>
    obtain ⟨heq, rfl⟩ := char_eq_ok_iff.1 hopen
    rw [List.cons_append, List.cons.injEq] at heq
    obtain ⟨rfl, rfl⟩ := heq
    exact refuses_bind_of_ok (char_eq_ok_iff.2 ⟨rfl, rfl⟩)
      (staysOut_gap0_followed (f := fun _ => callInside) hclosed hend
        ((List.suffix_cons _ t).trans hs)
        (fun m hm _ => staysOut_callInside_followed hclosed hend hparen
          (hm.trans ((List.suffix_cons _ t).trans hs))) hinside hrefuses)

/-- **Joining two texts is fair** where comments are closed. -/
theorem fair_followed (hclosed : CommentsClosed a) (hb : readStatements b = .ok tb) :
    (followed a b).Fair := by
  obtain ⟨e, hend⟩ := exists_gap0 ('\n' :: b)
  have hbreak : readStatements ('\n' :: b) = .ok tb := by
    rw [← hb]
    exact readStatements_congr (List.dropWhile_cons_of_pos (by decide))
  obtain ⟨te, he⟩ := exists_readStatements_of_gap0 hend hbreak
  refine ⟨keepsComments_followed hclosed, fun s hs _ w hw => ?_, fun s hs _ => ?_⟩
  · have hword : w.toList.all isPlainLetter = true ∧ IsWord w.toList ∧
        ∀ ws ∈ statementWords, ∀ v ∈ ws, Text.agreesWith w.toList v = false := by
      simp only [List.mem_cons, List.not_mem_nil, or_false] at hw
      rcases hw with rfl | rfl | rfl <;> decide
    obtain ⟨hplain, hword, hdiff⟩ := hword
    exact staysOut_gap1_followed (f := fun _ => keyword w) hclosed hend hs
      (fun m _ _ => staysOut_keyword_followed hplain hword)
      (refuses_keyword_of_readStatements he hplain hword hdiff)
  · have hhead := head_of_readStatements he
    refine staysOut_gap0_followed (f := fun _ => emptyCall) hclosed hend hs
      (fun m hm hne => staysOut_emptyCall_followed hclosed hend hhead (hm.trans hs) hne) ?_
    have hopen : (char '(').Refuses e :=
      refuses_satisfy_of_head fun c hc => (isCallChar_eq_false.1 (hhead c hc)).1
    exact hopen.bind _

end Exchange

namespace Source

open Rule Exchange

variable {a b s d : Text} {ta tb : List Statement}

/-! ### Joined texts -/

theorem suffix_of_mem_definitionPlaces (h : d ∈ definitionPlaces s) : d <:+ s := by
  fun_induction definitionPlaces s with
  | case1 s ih =>
    rcases List.mem_cons.1 h with rfl | h
    · exact List.suffix_rfl
    split at h
    · next D rest hread =>
      split at h
      · next hlt => exact (ih rest hlt h).trans (Tails.suffix s D rest hread)
      · cases h
    · cases h
    · cases h

theorem suffix_of_mem_columnPlaces (h : d ∈ columnPlaces s) : d <:+ s := by
  rw [columnPlaces] at h
  split at h
  · next m _ hfront =>
    exact (suffix_of_mem_definitionPlaces (List.mem_filter.1 h).1).trans (Tails.suffix s _ m hfront)
  · cases h

theorem trimStart_of_readStatements_nil (h : readStatements s = .ok []) : s.trimStart = [] := by
  rw [readStatements] at h
  split at h
  · assumption
  · split at h
    · split at h
      · next rest _ _ => cases hrest : readStatements rest <;> rw [hrest] at h <;> cases h
      · cases h
    · cases h
    · cases h

/-- Two texts are read one behind the other if what is a column of the first one does not become an
index or a foreign key. -/
theorem read_append_of_columnStays (ha : read a = .ok ta) (hb : read b = .ok tb)
    (hclosed : CommentsClosed a)
    (hcolumns : ∀ k < ta.length, ∀ d ∈ columnPlaces (restAfter k a).trimStart,
      (followed a b).ColumnStays d) : read (a ++ '\n' :: b) = .ok (ta ++ tb) := by
  have ha := read_eq_ok_iff.1 ha
  have hb := read_eq_ok_iff.1 hb
  have hjoined := (fair_followed hclosed hb).readStatements_new (s := a) (n := ta.length)
    (r := restAfter ta.length a) broken_followed List.suffix_rfl
    (by rwa [append_old]) le_rfl (by rw [append_old, append_old])
    fun k hk d _ hmem => hcolumns k hk d (by rwa [append_old, append_old] at hmem)
  -- nothing but white space is left of the first text
  have hblank := readStatements_restAfter ha le_rfl
  rw [List.drop_length] at hblank
  have htrim := trimStart_of_readStatements_nil hblank
  have hlast : readStatements (restAfter ta.length a ++ '\n' :: b) = .ok tb := by
    rw [← hb]
    refine readStatements_congr ?_
    rw [Text.trimStart] at htrim
    rw [Text.trimStart, List.dropWhile_append, htrim]
    rfl
  rw [List.take_length] at hjoined
  exact read_eq_ok_iff.2 (hjoined.trans (congrArg (Except.map (ta ++ ·)) hlast))

/-- So they are if no column of the first one starts with a word of an index or a foreign key. -/
theorem read_append_of_words (ha : read a = .ok ta) (hb : read b = .ok tb)
    (hclosed : CommentsClosed a)
    (hwords : ∀ k < ta.length, ∀ d ∈ columnPlaces (restAfter k a).trimStart,
      ∀ w ∈ indexWords.flatten ++ ["constraint".toList, "foreign".toList],
        Text.agreesWith d w = false) : read (a ++ '\n' :: b) = .ok (ta ++ tb) := by
  refine read_append_of_columnStays ha hb hclosed fun k hk d hd => ?_
  exact ⟨StaysOut.of_refuses (ledBy_indexDefinition.refuses d fun w hw =>
      hwords k hk d hd w (List.mem_append_left _ hw)),
    StaysOut.of_refuses (ledBy_foreignKeyDefinition.refuses d fun w hw =>
      hwords k hk d hd w (List.mem_append_right _ hw))⟩

/-- **Two texts are read one behind the other** exactly if the columns of the first one stay columns
with the second one behind.  In particular they are if no column of the first one starts with a
word of an index or a foreign key. -/
theorem read_append_iff (ha : read a = .ok ta) (hb : read b = .ok tb) (hclosed : CommentsClosed a) :
    (read (a ++ '\n' :: b) = .ok (ta ++ tb) ↔
      ∀ k < ta.length, ∀ d ∈ columnPlaces (restAfter k a).trimStart, IsColumn (d ++ '\n' :: b)) ∧
    ((∀ k < ta.length, ∀ d ∈ columnPlaces (restAfter k a).trimStart,
      ∀ w ∈ indexWords.flatten ++ ["constraint".toList, "foreign".toList],
        Text.agreesWith d w = false) → read (a ++ '\n' :: b) = .ok (ta ++ tb)) := by
  refine ⟨⟨fun hjoined k hk d hd => ?_, fun hcolumns => read_append_of_columnStays ha hb hclosed
    fun k hk d hd => columnStays_of_isColumn (hcolumns k hk d hd)⟩,
    read_append_of_words ha hb hclosed⟩
  have hjoined : readStatements (a ++ (followed a b).new) = .ok (ta.take ta.length ++ tb) := by
    rw [List.take_length]
    exact read_eq_ok_iff.1 hjoined
  refine (fair_followed hclosed (read_eq_ok_iff.1 hb)).isColumn_of_readStatements
    (s := a) (r := restAfter ta.length a) broken_followed List.suffix_rfl ?_ le_rfl ?_ hjoined k hk d
    ?_ ?_
  · rw [append_old]
    exact read_eq_ok_iff.1 ha
  · rw [append_old, append_old]
  · exact (suffix_of_mem_columnPlaces hd).trans ((trimStart_suffix _).trans (restAfter_suffix k a))
  · rwa [append_old, append_old]

/-- A column that starts like an index, and one that does not. -/
theorem read_append_iff_sample :
    ∃ a a' b ta ta' tb, read a = .ok ta ∧ read a' = .ok ta' ∧ read b = .ok tb ∧
      CommentsClosed a ∧ CommentsClosed a' ∧ read (a ++ '\n' :: b) = .ok (ta ++ tb) ∧
      read (a' ++ '\n' :: b) = .ok (ta' ++ tb) := by
  have ha : read "/* t */ CREATE TABLE t (key enum('a\\',') ); -- t".toList =
      .ok [.comment "/* t */".toList,
        .createTable ⟨false, false, ['t'],
          [.field ⟨"key".toList, "enum".toList, ["'a\\','".toList], [], []⟩], []⟩,
        .comment "-- t".toList] :=
    read_of_toOption (by decide +kernel)
  have ha' : read "CREATE TABLE t (a int);".toList =
      .ok [.createTable ⟨false, false, ['t'], [.field ⟨['a'], "int".toList, [], [], []⟩], []⟩] :=
    read_of_toOption (by decide +kernel)
  have hb : read "DROP TABLE t;".toList = .ok [.dropTable " t".toList] :=
    read_of_toOption (by decide +kernel)
  have hclosed : CommentsClosed "/* t */ CREATE TABLE t (key enum('a\\',') ); -- t".toList := by
    decide +kernel
  have hclosed' : CommentsClosed "CREATE TABLE t (a int);".toList := by decide +kernel
  exact ⟨_, _, _, _, _, _, ha, ha', hb, hclosed, hclosed',
    (read_append_iff ha hb hclosed).1.2 (by decide +kernel),
    (read_append_iff ha' hb hclosed').2 (by decide +kernel)⟩

/-- A quote of the second text may close one of the first, which turns a column into the start of an
index: the joined texts are not read at all. -/
theorem not_read_append :
    let a := "CREATE TABLE t (key enum('a\\',') );".toList
    let b := "SET x = '));';".toList
    CommentsClosed a ∧
      read a = .ok [.createTable ⟨false, false, ['t'],
        [.field ⟨"key".toList, "enum".toList, ["'a\\','".toList], [], []⟩], []⟩] ∧
      read b = .ok [.set " x = '));'".toList] ∧ ∀ ts, read (a ++ '\n' :: b) ≠ .ok ts := by
  intro a b
  have hnone : (read (a ++ '\n' :: b)).toOption = none := by decide +kernel
  refine ⟨by decide +kernel, read_of_toOption (by decide +kernel),
    read_of_toOption (by decide +kernel), fun ts h => ?_⟩
  rw [h] at hnone
  cases hnone

end Source

end SchemaDelta
