/-
**What is read as a keyword.**

A keyword is read where its letters stand, in capitals or not, and no word character follows.  There
is one exception.  Letters are compared for as long as both the text and the word last, and what is
taken from the text are the bytes of the word.  The sign for the kelvin is compared as a k and has
three bytes, as many as the word `key`: where it is the last character of a text, it is taken for
this word.

A phrase is read where its keywords stand one after the other with gaps between them.  The exception
can only be at its end.

Main definitions:

* `SchemaDelta.Text.FallsShort` — a text ends before the word does but has its bytes;
* `SchemaDelta.Lexeme.vocabulary` — the keywords of the schema language;
* `SchemaDelta.Lexeme.Stands` — a keyword in front of a text;
* `SchemaDelta.Lexeme.Phrased` — a phrase in front of a text.

Main results:

* `SchemaDelta.Text.spells_iff` — letters are compared up to the case of ASCII;
* `SchemaDelta.Lexeme.wholeWord_eq_ok_iff` — which texts are read as a word;
* `SchemaDelta.Lexeme.exists_isGap_of_gap1` — what is read as a gap in front of some text is one;
* `SchemaDelta.Lexeme.wholeWords_eq_ok_iff` — **a phrase is read where it stands**;
* `SchemaDelta.Lexeme.vocabulary_exact` — **the keywords and phrases of the schema language are read
  where they stand**, and nowhere else.
-/

import SchemaDelta.Proofs.Caseless
import SchemaDelta.Proofs.Separator

set_option relaxedAutoImplicit false
set_option autoImplicit false

namespace SchemaDelta

/-! ### Letters -/

namespace Text

variable {t word : Text}

/-- Letters that agree with those of a word one for one, and have as many bytes, are the same up to
the case of ASCII. -/
theorem spells_iff (hword : ∀ d ∈ word, isWordLetter d = true) :
    t.Spells word ↔ t.lowered = word := by
  constructor
  · intro h
    induction word generalizing t with
    | nil => exact congrArg lowered (List.length_eq_zero_iff.1 h.2.1)
    | cons d w ih =>
        obtain ⟨hagrees, hlen, hbytes⟩ := h
        cases t with
        | nil => cases hlen
        | cons c t =>
            have hw : ∀ e ∈ w, isWordLetter e = true := fun e he =>
              hword e (List.mem_cons_of_mem d he)
            have hd := hword d List.mem_cons_self
            simp only [isWordLetter, Bool.and_eq_true, decide_eq_true_eq, beq_iff_eq] at hd
            rw [agreesWith, Bool.and_eq_true, beq_iff_eq, hd.2] at hagrees
            have hlen : t.length = w.length := Nat.succ.inj hlen
            -- no character has more bytes than the letter it is compared with
            have hsize : c.utf8Size = 1 := by
              have hle := length_le_byteLength t
              have hpos := Char.utf8Size_pos c
              rw [byteLength_cons, byteLength_cons, Lexeme.utf8Size_ascii hd.1.1,
                byteLength_of_letters hw] at hbytes
              omega
            have hc : c.toNat < 128 :=
              Nat.lt_succ_of_le (UInt32.le_iff_toNat_le.1 (Char.utf8Size_eq_one_iff.1 hsize))
            rw [lowerChar_ascii hc, List.cons.injEq] at hagrees
            rw [lowered_cons, hagrees.1.1, ih hw ⟨hagrees.2, hlen, ?_⟩]
            rw [byteLength_cons, byteLength_cons, hsize, Lexeme.utf8Size_ascii hd.1.1] at hbytes
            omega
  · rintro rfl
    refine ⟨?_, (length_lowered t).symm, (byteLength_lowered t).symm⟩
    rw [← agreesWith_lowered]
    exact agreesWith_of_isPrefixOf (by simp)

/-- A text agrees with a word but ends before it does, and has the bytes of the word all the
same. -/
def FallsShort (t word : Text) : Prop :=
  t.agreesWith word = true ∧ t.length < word.length ∧ t.byteLength = word.byteLength

/-- What agrees with plain letters has one byte for each of them. -/
theorem byteLength_of_agreesWith (hword : ∀ d ∈ word, Lexeme.isPlainLetter d = true)
    (hagrees : t.agreesWith word = true) (hlen : t.length ≤ word.length) :
    t.byteLength = t.length := by
  induction word generalizing t with
  | nil =>
      obtain rfl := List.length_eq_zero_iff.1 (Nat.le_zero.1 hlen)
      rfl
  | cons d w ih =>
      cases t with
      | nil => rfl
      | cons c t =>
          rw [agreesWith, Bool.and_eq_true, beq_iff_eq] at hagrees
          have hc := Lexeme.ascii_of_isPlainLetter (hword d List.mem_cons_self) hagrees.1
          rw [byteLength_cons, Lexeme.utf8Size_ascii hc.1, List.length_cons,
            ih (fun e he => hword e (List.mem_cons_of_mem d he)) hagrees.2
              (Nat.le_of_succ_le_succ hlen), Nat.add_comm]

/-- Nothing falls short of a word without a k. -/
theorem not_fallsShort (hword : ∀ d ∈ word, Lexeme.isPlainLetter d = true) :
    ¬ t.FallsShort word := by
  rintro ⟨hagrees, hlt, hbytes⟩
  rw [byteLength_of_agreesWith hword hagrees (Nat.le_of_lt hlt),
    byteLength_of_ascii fun d hd => (Lexeme.ascii_of_isPlainLetter (hword d hd) rfl).1] at hbytes
  omega

/-- Only the sign for the kelvin falls short of the word `key`. -/
theorem fallsShort_key_iff : t.FallsShort "key".toList ↔ t = [kelvinSign] := by
  constructor
  · rintro ⟨hagrees, hlt, hbytes⟩
    have hkey : "key".toList = ['k', 'e', 'y'] := rfl
    rw [hkey] at hagrees hlt hbytes
    cases t with
    | nil => cases hbytes
    | cons c t =>
        rw [agreesWith, Bool.and_eq_true, beq_iff_eq] at hagrees
        have hlen : t.length ≤ 1 := by
          rw [List.length_cons] at hlt
          exact Nat.le_of_lt_succ (Nat.lt_of_succ_lt_succ hlt)
        have hplain : ∀ d ∈ ['e', 'y'], Lexeme.isPlainLetter d = true := by decide
        have htail : byteLength t = t.length :=
          byteLength_of_agreesWith hplain hagrees.2 (Nat.le_succ_of_le hlen)
        have hthree : byteLength ['k', 'e', 'y'] = 3 := rfl
        rw [byteLength_cons, htail, hthree] at hbytes
        have hc : ¬ c.toNat < 128 := by
          intro hc
          rw [Lexeme.utf8Size_ascii hc] at hbytes
          omega
        obtain rfl : c = kelvinSign := kelvin_of_lowerChar hc (hagrees.1.trans (by decide))
        have hsize : kelvinSign.utf8Size = 3 := by decide
        rw [hsize] at hbytes
        obtain rfl : t = [] := List.length_eq_zero_iff.1 (by omega)
        rfl
  · rintro rfl
    exact ⟨by decide, by decide, by decide⟩

end Text

namespace Lexeme

open Rule

variable {s t u g rest m word : Text} {words : List Text}

/-! ### Keywords -/

/-- **Which texts are read as a word**: its letters where no word character follows, and at the end
of everything a text that falls short of it. -/
theorem wholeWord_eq_ok_iff (hword : IsWord word) :
    wholeWord word s = .ok t rest ↔
      s = t ++ rest ∧ WordEnds rest ∧ (t.lowered = word ∨ rest = [] ∧ t.FallsShort word) := by
  constructor
  · intro h
    obtain ⟨rfl, -, -, hends⟩ := wordChars_of_wholeWord hword h
    refine ⟨rfl, hends, ?_⟩
    by_cases hrest : rest = []
    · subst hrest
      obtain ⟨t', mid, hletters, h⟩ := bind_eq_ok_iff.1 h
      obtain ⟨w, mid', habsent, hpure⟩ := bind_eq_ok_iff.1 h
      cases hpure
      obtain ⟨rfl, -⟩ := wordEnds_of_absent habsent
      obtain ⟨-, hagrees, hbytes⟩ := exists_of_letters hletters
      rw [List.append_nil] at hagrees
      have hle := Text.length_le_byteLength t
      rw [hbytes, Text.byteLength_of_letters hword.2] at hle
      rcases Nat.lt_or_eq_of_le hle with hlt | heq
      · exact .inr ⟨rfl, hagrees, hlt, hbytes⟩
      · exact .inl ((Text.spells_iff hword.2).1 ⟨hagrees, heq, hbytes⟩)
    · exact .inl ((Text.spells_iff hword.2).1 (spells_of_wholeWord hword h hrest))
  · rintro ⟨rfl, hends, ht | ⟨rfl, hagrees, -, hbytes⟩⟩
    · exact wholeWord_append ((Text.spells_iff hword.2).2 ht) hends
    · have hletters : letters word (t ++ []) = .ok t [] := by
        have hsplit := Text.splitAtByte?_byteLength t []
        rw [hbytes] at hsplit
        rw [List.append_nil] at hsplit ⊢
        rw [letters, if_pos hagrees, hsplit]
      rw [wholeWord, bind_of_ok hletters, bind_of_ok (absent_wordChar hends)]
      rfl

/-- The keywords of the schema language. -/
def vocabulary : List String :=
  ["action", "alter", "asc", "auto", "auto_increment", "binary", "btree", "cascade", "character",
    "charset", "collate", "comment", "constraint", "create", "current_timestamp", "database",
    "default", "delete", "delimiter", "desc", "drop", "exists", "foreign", "full", "fulltext",
    "hash", "if", "increment", "index", "insert", "key", "match", "no", "not", "now", "null", "on",
    "partial", "primary", "references", "restrict", "rtree", "schema", "set", "signed", "simple",
    "spatial", "table", "temporary", "unique", "unsigned", "update", "use", "using", "zerofill"]

/-- A keyword without a k, or the one that has one. -/
def IsKeyword (word : Text) : Prop :=
  IsWord word ∧ (word = "key".toList ∨ ∀ d ∈ word, isPlainLetter d = true)

instance : DecidablePred IsKeyword := fun word =>
  inferInstanceAs (Decidable (IsWord word ∧ (_ ∨ ∀ d ∈ word, isPlainLetter d = true)))

theorem isKeyword_of_mem {word : String} (h : word ∈ vocabulary) : IsKeyword word.toList := by
  have hall : ∀ word ∈ vocabulary, IsKeyword word.toList := by decide +kernel
  exact hall word h

/-- The letters of a keyword stand in front of the text `rest`, which does not run on.  At the end
of everything the sign for the kelvin stands for `key` as well. -/
def Stands (word t rest : Text) : Prop :=
  t.lowered = word ∧ WordEnds rest ∨ word = "key".toList ∧ t = [kelvinSign] ∧ rest = []

theorem wholeWord_eq_ok_iff_stands (hword : IsKeyword word) :
    wholeWord word s = .ok t rest ↔ s = t ++ rest ∧ Stands word t rest := by
  rw [wholeWord_eq_ok_iff hword.1]
  refine and_congr_right fun _ => ?_
  constructor
  · rintro ⟨hends, ht | ⟨rfl, hshort⟩⟩
    · exact .inl ⟨ht, hends⟩
    · rcases hword.2 with rfl | hplain
      · exact .inr ⟨rfl, Text.fallsShort_key_iff.1 hshort, rfl⟩
      · exact absurd hshort (Text.not_fallsShort hplain)
  · rintro (⟨ht, hends⟩ | ⟨rfl, rfl, rfl⟩)
    · exact ⟨hends, .inl ht⟩
    · exact ⟨nofun, .inr ⟨rfl, Text.fallsShort_key_iff.2 rfl⟩⟩

/-- In front of some text only the letters of a keyword stand for it. -/
theorem Stands.lowered_eq (h : Stands word t rest) (hne : rest ≠ []) : t.lowered = word := by
  rcases h with ⟨ht, -⟩ | ⟨-, -, hrest⟩
  · exact ht
  · exact absurd hrest hne

/-! ### Gaps -/

/-- Behind a line feed in front of a gap there is a gap or nothing. -/
theorem IsGap.of_lineFeed (h : IsGap ('\n' :: u)) : u = [] ∨ IsGap u := by
  generalize hg : '\n' :: u = g at h
  cases h with
  | single hp => cases hp <;> cases hg; exact .inl rfl
  | cons hp htail => cases hp <;> cases hg; exact .inr htail

/-- A comment in front of a gap makes a longer one. -/
theorem IsComment.isGap_append (h : IsComment t (g ++ m)) (hg : IsGap g) : IsGap (t ++ g) := by
  obtain ⟨c, u, rfl, -⟩ := hg.exists_eq_cons
  -- a comment up to the end of its line takes the line feed from the gap
  have hline : ∀ {p : Text}, IsSeparator (p ++ ['\n']) → c = '\n' → IsGap (p ++ c :: u) := by
    rintro p hp rfl
    have hshape : p ++ '\n' :: u = p ++ ['\n'] ++ u := by simp
    rw [hshape]
    rcases hg.of_lineFeed with rfl | hu
    · rw [List.append_nil]
      exact .single hp
    · exact .cons hp hu
  cases h with
  | hash hbody hrest => exact hline (.hash hbody) (hrest c rfl)
  | dashes hbody hrest => exact hline (.dashes hbody) (hrest c rfl)
  | block hbody => exact .cons (.block hbody) hg

/-- A comment in front of a solid text is closed. -/
theorem IsComment.isSeparator (h : IsComment t m) (hsolid : Solid m) (hm : m ≠ []) :
    IsSeparator t := by
  have hline : ¬ ∀ c ∈ m.head?, c = '\n' := by
    intro hrest
    cases m with
    | nil => exact hm rfl
    | cons c m =>
        obtain rfl : c = '\n' := hrest c rfl
        exact absurd (hsolid.isSpace_head '\n' rfl) (by decide)
  cases h with
  | hash _ hrest => exact absurd hrest hline
  | dashes _ hrest => exact absurd hrest hline
  | block hbody => exact .block hbody

/-- **What is read as a gap in front of some text is one.** -/
theorem exists_isGap_of_gap1 (h : gap1 s = .ok () m) (hm : m ≠ []) :
    ∃ g, IsGap g ∧ s = g ++ m := by
  have hsolid : Solid m := solid_of_gap1 h
  have hgap : s = m ∨ ∃ g, IsGap g ∧ s = g ++ m := by
    refine gap0_induction (P := fun u => u = m ∨ ∃ g, IsGap g ∧ u = g ++ m) (gap0_of_gap1 h)
      (.inl rfl) ?_ ?_
    · intro u a v hspaces hv
      obtain ⟨hne, hall⟩ := yields_span1 isSpace u a v hspaces
      obtain ⟨-, ha, hrest⟩ := span1_eq_ok_iff.1 hspaces
      have hu : u = a ++ v := by rw [ha, hrest, List.takeWhile_append_dropWhile]
      have hgap := isGap_of_spaces hne (List.all_eq_true.2 hall)
      rcases hv with rfl | ⟨g, hg, rfl⟩
      · exact .inr ⟨a, hgap, hu⟩
      · exact .inr ⟨a ++ g, hgap.append hg, by rw [hu, List.append_assoc]⟩
    · intro u a v hcomment hv
      obtain ⟨rfl, ha⟩ := comment_eq_ok_iff.1 hcomment
      rcases hv with rfl | ⟨g, hg, rfl⟩
      · exact .inr ⟨a, .single (ha.isSeparator hsolid hm), rfl⟩
      · exact .inr ⟨a ++ g, ha.isGap_append hg, by rw [List.append_assoc]⟩
  rcases hgap with rfl | hgap
  · exact absurd h (refuses_gap1 hsolid).ne_ok
  · exact hgap

/-! ### Phrases -/

/-- The words of a phrase stand one after the other in front of the text `rest`, with gaps between
them.  The text `t` is what they cover. -/
inductive Phrased : List Text → Text → Text → Prop where
  | nil {rest : Text} : Phrased [] [] rest
  | single {word t rest : Text} (h : Stands word t rest) : Phrased [word] t rest
  | cons {word v : Text} {words : List Text} {t g u rest : Text} (h : t.lowered = word)
      (hg : IsGap g) (hu : Phrased (v :: words) u rest) :
      Phrased (word :: v :: words) (t ++ (g ++ u)) rest

/-- A keyword starts with a word character. -/
theorem Stands.exists_eq_cons (hword : IsKeyword word) (h : Stands word t rest) :
    ∃ c u, t = c :: u ∧ isWordChar c = true := by
  have hread := (wholeWord_eq_ok_iff_stands hword).2 ⟨rfl, h⟩
  obtain ⟨-, hne, hchars, -⟩ := wordChars_of_wholeWord hword.1 hread
  cases t with
  | nil => exact absurd rfl hne
  | cons c u => exact ⟨c, u, rfl, hchars c List.mem_cons_self⟩

/-- So does a phrase. -/
theorem Phrased.exists_eq_cons (hword : IsKeyword word) (h : Phrased (word :: words) t rest) :
    ∃ c u, t = c :: u ∧ isWordChar c = true := by
  cases h with
  | single h => exact h.exists_eq_cons hword
  | @cons _ _ _ t' g u _ ht hg hu =>
      have hends : WordEnds [] := nofun
      obtain ⟨c, v, rfl, hc⟩ := Stands.exists_eq_cons hword (.inl ⟨ht, hends⟩)
      exact ⟨c, v ++ (g ++ u), rfl, hc⟩

/-- **A phrase is read where it stands**, and nowhere else. -/
theorem wholeWords_eq_ok_iff (hwords : ∀ w ∈ words, IsKeyword w) :
    wholeWords words s = .ok () rest ↔ ∃ t, s = t ++ rest ∧ Phrased words t rest := by
  induction words using wholeWords.induct generalizing s with
  | case1 =>
      constructor
      · intro h
        cases h
        exact ⟨[], rfl, .nil⟩
      · rintro ⟨t, rfl, ht⟩
        cases ht
        rfl
  | case2 w =>
      have hw := hwords w List.mem_cons_self
      constructor
      · intro h
        obtain ⟨t, h⟩ := discard_eq_ok h
        obtain ⟨rfl, hstands⟩ := (wholeWord_eq_ok_iff_stands hw).1 h
        exact ⟨t, rfl, .single hstands⟩
      · rintro ⟨t, rfl, ht⟩
        cases ht with
        | single hstands =>
            rw [wholeWords, discard_apply, (wholeWord_eq_ok_iff_stands hw).2 ⟨rfl, hstands⟩]
  | case3 w v ws ih =>
      have hw := hwords w List.mem_cons_self
      have hv := hwords v (List.mem_cons_of_mem w List.mem_cons_self)
      have hrest : ∀ x ∈ v :: ws, IsKeyword x := fun x hx => hwords x (List.mem_cons_of_mem w hx)
      constructor
      · intro h
        obtain ⟨t, mid, hread, h⟩ := bind_eq_ok_iff.1 h
        obtain ⟨_, m, hgap, h⟩ := bind_eq_ok_iff.1 h
        obtain ⟨u, rfl, hu⟩ := (ih hrest).1 h
        obtain ⟨rfl, hstands⟩ := (wholeWord_eq_ok_iff_stands hw).1 hread
        obtain ⟨c, u', rfl, -⟩ := hu.exists_eq_cons hv
        obtain ⟨g, hg, rfl⟩ := exists_isGap_of_gap1 hgap (List.cons_ne_nil _ _)
        obtain ⟨d, g', rfl, -⟩ := hg.exists_eq_cons
        exact ⟨_, by simp, .cons (hstands.lowered_eq (List.cons_ne_nil _ _)) hg hu⟩
      · rintro ⟨t, rfl, ht⟩
        cases ht with
        | @cons _ _ _ t g u _ ht hg hu =>
            obtain ⟨c, u', rfl, hc⟩ := hu.exists_eq_cons hv
            have hsolid : Solid (c :: u' ++ rest) :=
              solid_of_head (isGapStart_of_isWordChar hc) (u' ++ rest)
            have hread : wholeWord w (t ++ (g ++ (c :: u' ++ rest))) =
                .ok t (g ++ (c :: u' ++ rest)) :=
              (wholeWord_eq_ok_iff_stands hw).2 ⟨rfl, .inl ⟨ht, wordEnds_gap hg _⟩⟩
            rw [wholeWords, List.append_assoc, List.append_assoc, bind_of_ok hread,
              bind_of_ok (hg.gap1 hsolid)]
            exact (ih hrest).2 ⟨c :: u', rfl, hu⟩

/-- **The keywords and phrases of the schema language are read where they stand**, and nowhere
else: a keyword where its letters stand in either case and no word character follows, a phrase where
its keywords stand in a row with gaps between them, and what is read is the text that they cover.
The one exception is the sign for the kelvin at the end of everything, which is taken for `key`. -/
theorem vocabulary_exact (s t rest : Text) :
    (∀ word ∈ vocabulary, keyword word s = .ok t rest ↔
      s = t ++ rest ∧ (t.lowered = word.toList ∧ WordEnds rest ∨
        word = "key" ∧ t = [kelvinSign] ∧ rest = [])) ∧
    ∀ phrase : String, (∀ w ∈ Text.words phrase.toList, w ∈ vocabulary.map String.toList) →
      (keywords phrase s = .ok t rest ↔
        s = t ++ rest ∧ Phrased (Text.words phrase.toList) t rest) := by
  constructor
  · intro word hword
    rw [keyword, wholeWord_eq_ok_iff_stands (isKeyword_of_mem hword), Stands, String.toList_inj]
  · intro phrase hphrase
    have hwords : ∀ w ∈ Text.words phrase.toList, IsKeyword w := by
      intro w hw
      obtain ⟨word, hword, rfl⟩ := List.mem_map.1 (hphrase w hw)
      exact isKeyword_of_mem hword
    constructor
    · intro h
      obtain ⟨_, hread, ht⟩ := matched_eq_ok h
      obtain ⟨t', rfl, hphrased⟩ := (wholeWords_eq_ok_iff hwords).1 hread
      rw [take_of_append rfl] at ht
      exact ⟨by rw [ht], ht ▸ hphrased⟩
    · rintro ⟨rfl, hphrased⟩
      exact matched_of_ok ((wholeWords_eq_ok_iff hwords).2 ⟨t, rfl, hphrased⟩)

/-- A keyword in front of a bracket, and one that runs on; a phrase with a comment in its gap. -/
theorem vocabulary_exact_sample :
    keyword "key" "KEY(a)".toList = .ok "KEY".toList "(a)".toList ∧
      (∀ t rest : Text, keyword "key" "keys".toList ≠ .ok t rest) ∧
      keywords "primary key" "Primary/* k */KEY(a)".toList =
        .ok "Primary/* k */KEY".toList "(a)".toList := by
  have hkey : "key" ∈ vocabulary := by decide
  refine ⟨?_, ?_, ?_⟩
  · refine ((vocabulary_exact _ _ _).1 "key" hkey).2 ⟨rfl, .inl ⟨by decide, ?_⟩⟩
    exact wordEnds_cons (c := '(') (by decide) "a)".toList
  · intro t rest h
    obtain ⟨hs, ⟨ht, hends⟩ | ⟨-, rfl, rfl⟩⟩ := ((vocabulary_exact _ _ _).1 "key" hkey).1 h
    · -- the letters of the keyword are the first three characters
      have hlen : t.length = 3 := by rw [← Text.length_lowered, ht]; rfl
      have hs : "key".toList ++ "s".toList = t ++ rest := hs
      obtain ⟨-, rfl⟩ := List.append_inj hs hlen.symm
      exact absurd (hends 's' rfl) (by decide)
    · cases hs
  · refine ((vocabulary_exact _ _ _).2 "primary key" (by decide)).2 ⟨rfl, ?_⟩
    have hbody : ¬ ['*', '/'] <:+: " k ".toList := by decide
    have hgap : IsGap "/* k */".toList := .single (.block hbody)
    have hends : WordEnds "(a)".toList := wordEnds_cons (c := '(') (by decide) "a)".toList
    exact .cons (t := "Primary".toList) (u := "KEY".toList) (by decide) hgap
      (.single (.inl ⟨by decide, hends⟩))

/-- What is read as a keyword need not spell it. -/
theorem exists_keyword_not_spelled :
    ∃ word ∈ vocabulary, ∃ s t rest : Text,
      keyword word s = .ok t rest ∧ t.lowered ≠ word.toList :=
  ⟨"key", by decide, [kelvinSign], [kelvinSign], [], by decide +kernel, by decide⟩

end Lexeme

end SchemaDelta
