/-
**The marks of comments are not lost twice.**

A comment starts with a `#`, a dash or a slash.  What is read as the qualifiers of a column has no
more of these characters, once it is written again, than were taken from the text: names lose their
quotes, escapes are resolved, comments and what they hold are dropped, and nothing is added that has
one of them.  So if as many are written as there were to begin with, no comment was passed over on
the way, and every gap is white space.

Main definitions:

* `SchemaDelta.commentMarks` — the characters that comments start with;
* `SchemaDelta.Rule.Spends` — reading a value takes a number of occurrences of a character away.

Main results:

* `SchemaDelta.Source.spends_qualifiers` — **what is read as qualifiers has no more marks** than were
  taken from the text;
* `SchemaDelta.Lexeme.exists_of_gap0` — a gap is white space, or it has a mark.
-/

import SchemaDelta.Proofs.Column
import SchemaDelta.Proofs.Exchange.Column

set_option relaxedAutoImplicit false
set_option autoImplicit false

namespace SchemaDelta

/-- The characters that comments start with. -/
def commentMarks : List Char :=
  ['#', '-', '/']

/-! ### What values cost -/

namespace Rule

variable {α β : Type} {p q : Rule α} {m : Char} {cost : α → Nat} {cost' : β → Nat}

/-- Reading a value takes as many occurrences of `m` away as the value costs, or more. -/
def Spends (m : Char) (cost : α → Nat) (p : Rule α) : Prop :=
  ∀ s a rest, p s = .ok a rest → cost a + rest.count m ≤ s.count m

/-- What a rule leaves has no more of a character than the text had. -/
theorem count_le_of_tails [Tails p] {s rest : Text} {a : α} (h : p s = .ok a rest) :
    rest.count m ≤ s.count m :=
  (Tails.suffix s a rest h).sublist.count_le m

theorem spends_free [Tails p] (h : ∀ a, cost a = 0) : p.Spends m cost := by
  intro s a rest ha
  rw [h a, Nat.zero_add]
  exact count_le_of_tails ha

/-- Only the value of the last part of a sequence costs something. -/
theorem spends_bind [Tails p] {f : α → Rule β} (hf : ∀ a, (f a).Spends m cost') :
    (p >>= f).Spends m cost' := by
  intro s b rest h
  obtain ⟨a, mid, ha, hb⟩ := bind_eq_ok_iff.1 h
  exact (hf a mid b rest hb).trans (count_le_of_tails ha)

theorem Spends.map {f : α → β} (h : p.Spends m fun a => cost' (f a)) : (f <$> p).Spends m cost' := by
  intro s b rest hb
  obtain ⟨a, ha, rfl⟩ := map_eq_ok_iff.1 hb
  exact h s a rest ha

theorem Spends.mono (h : p.Spends m cost) {less : α → Nat} (hless : ∀ a, less a ≤ cost a) :
    p.Spends m less :=
  fun s a rest ha => (Nat.add_le_add_right (hless a) _).trans (h s a rest ha)

theorem Spends.within (h : p.Spends m cost) (name : Construct) : (p.within name).Spends m cost :=
  fun s a rest ha => h s a rest (within_eq_ok_iff.1 ha)

theorem spends_firstOf {ps : List (Rule α)} (h : ∀ p ∈ ps, p.Spends m cost) :
    (firstOf ps).Spends m cost := by
  intro s a rest ha
  obtain ⟨p, hp, ha⟩ := exists_of_firstOf_eq_ok ha
  exact h p hp s a rest ha

/-- A list of values costs at most what its values cost together. -/
theorem Spends.many {total : List α → Nat} (h : p.Spends m cost) (hnil : total [] = 0)
    (hcons : ∀ a as, total (a :: as) = cost a + total as) : p.many.Spends m total := by
  intro s as last hm
  fun_induction Rule.many p s generalizing as last with
  | case1 s a mid hp hlt bs last hmany ih =>
      cases hm
      have hfirst := h s a mid hp
      have hothers := ih bs last hmany
      rw [hcons]
      omega
  | case2 => cases hm
  | case3 => cases hm
  | case4 => cases hm; rw [hnil, Nat.zero_add]
  | case5 => cases hm; rw [hnil, Nat.zero_add]
  | case6 => cases hm

theorem spends_span1 (f : Char → Bool) : (span1 f).Spends m fun t => t.count m := by
  intro s t rest h
  obtain ⟨-, rfl, rfl⟩ := span1_eq_ok_iff.1 h
  rw [← List.count_append, List.takeWhile_append_dropWhile]

end Rule

/-! ### Names and strings -/

namespace Text

variable {m q : Char}

theorem count_doubled (h : m ≠ q) (t : Text) : (doubled q t).count m = t.count m := by
  induction t with
  | nil => rfl
  | cons c t ih =>
      rw [doubled_cons, List.count_append, ih, ← List.singleton_append (l := t), List.count_append]
      congr 1
      by_cases hc : c = q
      · simp [hc, h.symm]
      · rw [if_neg hc]

/-- Escapes stand for no marks but the ones that they are written with. -/
theorem count_escaped_le (hm : m ∈ commentMarks) (c : Char) : (escaped c).count m ≤ [c].count m := by
  have hnone : ∀ t ∈ [['\n'], ['\t'], ['\r'], [Char.ofNat 0], [Char.ofNat 8], [Char.ofNat 26],
      ['\\', '%'], ['\\', '_']], t.count m = 0 := by
    revert m
    decide
  unfold escaped
  split
  case h_9 => exact Nat.le_refl _
  all_goals exact (hnone _ (by decide)).trans_le (Nat.zero_le _)

theorem count_unescape_le (hm : m ∈ commentMarks) (q : Char) (t : Text) :
    (unescape q t).count m ≤ t.count m := by
  fun_induction unescape q t with
  | case1 => exact Nat.le_refl _
  | case2 => exact Nat.le_refl _
  | case3 d t ih =>
      have hd := count_escaped_le hm d
      rw [List.count_append]
      simp only [List.count_cons, List.count_nil] at hd ⊢
      omega
  | case4 c d t _ hquote ih =>
      simp only [List.count_cons] at ih ⊢
      rw [hquote.1, hquote.2]
      omega
  | case5 c d t _ _ ih =>
      simp only [List.count_cons] at ih ⊢
      omega

end Text

namespace Lexeme

open Rule

variable {s rest : Text} {m : Char}

theorem spends_identifier : identifier.Spends m fun t => (Text.unquote t).count m := by
  intro s t rest h
  obtain ⟨rfl, ⟨q, name, hq, hne, -, rfl⟩ | ⟨-, hword, -⟩⟩ := exists_of_identifier h
  · change (Text.unquote (q :: (name ++ [q]))).count m + rest.count m ≤ _
    rw [Text.unquote_between hq hne]
    simp only [List.count_cons, List.count_append, List.cons_append]
    omega
  · change (Text.unquote t).count m + rest.count m ≤ _
    rw [Text.unquote_word hword, List.count_append]

theorem spends_quotedString (hm : m ∈ commentMarks) :
    quotedString.Spends m fun q => (Text.unescape q.1 q.2).count m := by
  intro s q rest h
  obtain ⟨-, rfl, -⟩ := quotedString_eq_ok h
  have hle := Text.count_unescape_le hm q.1 q.2
  simp only [List.count_cons, List.count_append, List.cons_append]
  omega

/-! ### Gaps -/

/-- **A gap is white space, or it has a mark.** -/
theorem exists_of_gap0 (h : gap0 s = .ok () rest) :
    ∃ g, s = g ++ rest ∧ ((∀ c ∈ g, isSpace c = true) ∨ ∃ m ∈ commentMarks, m ∈ g) := by
  refine gap0_induction (P := fun u => ∃ g, u = g ++ rest ∧
    ((∀ c ∈ g, isSpace c = true) ∨ ∃ m ∈ commentMarks, m ∈ g)) h ?_ ?_ ?_
  · exact ⟨[], rfl, .inl (List.forall_mem_nil _)⟩
  · rintro u a v hspaces ⟨g, rfl, hg⟩
    obtain ⟨-, ha, hv⟩ := span1_eq_ok_iff.1 hspaces
    refine ⟨a ++ g, ?_, ?_⟩
    · rw [List.append_assoc, hv, ha, List.takeWhile_append_dropWhile]
    · have hblank : ∀ c ∈ a, isSpace c = true := fun c hc => by
        rw [ha] at hc
        exact List.mem_takeWhile_imp hc
      rcases hg with hg | ⟨m, hm, hmg⟩
      · exact .inl fun c hc => (List.mem_append.1 hc).elim (hblank c) (hg c)
      · exact .inr ⟨m, hm, List.mem_append_right a hmg⟩
  · rintro u a v hcomment ⟨g, rfl, -⟩
    obtain ⟨c, t, rfl, ⟨hstart, hspace⟩, ⟨t', rfl⟩, -⟩ := starts_comment u a _ hcomment
    refine ⟨c :: t' ++ g, by simp, .inr ⟨c, ?_, List.mem_cons_self⟩⟩
    rw [isGapStart, hspace, Bool.false_or] at hstart
    simpa [commentMarks, or_assoc] using hstart

/-- A gap in which no mark is lost is white space. -/
theorem exists_space_of_gap0 (h : gap0 s = .ok () rest)
    (hcount : ∀ m ∈ commentMarks, s.count m ≤ rest.count m) :
    ∃ g, s = g ++ rest ∧ ∀ c ∈ g, isSpace c = true := by
  obtain ⟨g, rfl, hg | ⟨m, hm, hmem⟩⟩ := exists_of_gap0 h
  · exact ⟨g, rfl, hg⟩
  · have hle := hcount m hm
    have hpos := List.count_pos_iff.2 hmem
    rw [List.count_append] at hle
    omega

end Lexeme

/-! ### Qualifiers -/

namespace Source

open Rule Lexeme

variable {m : Char}

theorem count_quoteString (hm : m ∈ commentMarks) (v : Text) :
    (Generator.mysql.quoteString v).count m = v.count m := by
  have hne : m ≠ singleQuote ∧ m ≠ '\\' := by
    revert m
    decide
  change (Text.quotedWith singleQuote (Text.doubled '\\' v)).count m = v.count m
  rw [Text.quotedWith, List.cons_append, List.count_cons_of_ne hne.1.symm, List.count_append,
    List.count_singleton, if_neg (by simpa using hne.1.symm), Nat.add_zero,
    Text.count_doubled hne.1, Text.count_doubled hne.2]

theorem count_bitLiteral (hm : m ∈ commentMarks) (n : UInt64) :
    (Generator.mysql.bitLiteral n).count m = 0 := by
  have hbits : isBit m = false ∧ m ≠ 'b' ∧ m ≠ singleQuote := by
    revert m
    decide
  have hdigits : m ∉ Text.binary n.toNat := Text.not_mem_binary hbits.1 n.toNat
  refine List.count_eq_zero.2 fun hmem => ?_
  have hmem : m = 'b' ∨ m = singleQuote ∨ m ∈ Text.binary n.toNat ∨ m = singleQuote := by
    simpa [Generator.mysql] using hmem
  rcases hmem with h | h | h | h
  · exact hbits.2.1 h
  · exact hbits.2.2 h
  · exact hdigits h
  · exact hbits.2.2 h

theorem spends_defaultValue (hm : m ∈ commentMarks) :
    defaultValue.Spends m fun v => (Generator.mysql.default v.meaning).count m := by
  refine spends_firstOf fun p hp => ?_
  simp only [List.mem_cons, List.not_mem_nil, or_false] at hp
  rcases hp with rfl | rfl | rfl | rfl
  · refine Spends.map (spends_free fun _ => ?_)
    revert m
    decide
  · exact Spends.map ((spends_quotedString hm).mono fun q => (count_quoteString hm _).le)
  · refine Spends.map fun s digits rest h => ?_
    obtain ⟨n, hn⟩ := yields_bitLiteral s digits rest h
    have hmeaning : (DefaultValue.bits digits).meaning = .bits n := by
      rw [DefaultValue.meaning, hn]
    have hnone : (Generator.mysql.default (DefaultValue.bits digits).meaning).count m = 0 :=
      hmeaning ▸ count_bitLiteral hm n
    change (Generator.mysql.default (DefaultValue.bits digits).meaning).count m + rest.count m ≤ _
    rw [hnone, Nat.zero_add]
    exact count_le_of_tails h
  · exact Spends.map (spends_span1 _)

theorem count_texts_cons (q : SchemaDelta.Qualifier) (qs : List SchemaDelta.Qualifier) :
    (Qualifier.texts (q :: qs)).count m =
      (Qualifier.texts [q]).count m + (Qualifier.texts qs).count m := by
  simp only [Qualifier.texts, List.flatMap_cons, List.flatMap_nil, List.append_nil,
    List.count_append]

/-- The marks of a qualifier are those of its name or value, since its words have none. -/
theorem count_texts_singleton (hm : m ∈ commentMarks) (q : SchemaDelta.Qualifier) :
    (Qualifier.texts [q]).count m = match q with
      | .characterSet name | .collate name => name.count m
      | .default v => (Generator.mysql.default v).count m
      | _ => 0 := by
  have hspace : m ≠ ' ' := by
    revert m
    decide
  rw [Qualifier.texts, List.flatMap_singleton, List.count_cons_of_ne hspace.symm]
  have hwords : ∀ t : Text, ("CHARACTER SET ".toList ++ t).count m = t.count m ∧
      ("COLLATE ".toList ++ t).count m = t.count m ∧
      ("DEFAULT ".toList ++ t).count m = t.count m := by
    intro t
    simp only [List.count_append, Nat.add_eq_right]
    revert m
    decide
  cases q with
  | characterSet name => exact (hwords name).1
  | collate name => exact (hwords name).2.1
  | default v => exact (hwords _).2.2
  | notNull | null | primaryKey | autoIncrement | uniqueKey | key =>
      clear hwords hspace
      revert m
      decide

theorem spends_fieldQualifier (hm : m ∈ commentMarks) :
    fieldQualifier.Spends m fun q => (Qualifier.texts q.meaning?.toList).count m := by
  have hset : characterSet.Spends m fun t => (Text.unquote t).count m :=
    spends_bind fun _ => spends_bind fun _ => spends_identifier
  have hcollation : collation.Spends m fun t => (Text.unquote t).count m :=
    spends_bind fun _ => spends_bind fun _ => spends_identifier
  have hdefault : defaultClause.Spends m fun v => (Generator.mysql.default v.meaning).count m :=
    spends_bind fun _ => spends_bind fun _ => (spends_defaultValue hm).within _
  refine spends_firstOf fun p hp => ?_
  simp only [fieldQualifiers, List.mem_cons, List.not_mem_nil, or_false] at hp
  rcases hp with rfl | rfl | rfl | rfl | rfl | rfl | rfl | rfl | rfl | rfl | rfl | rfl
  · exact Spends.map (spends_free fun _ => count_texts_singleton hm .notNull)
  · exact Spends.map (spends_free fun _ => count_texts_singleton hm .null)
  · exact Spends.map (spends_free fun _ => count_texts_singleton hm .primaryKey)
  · exact Spends.map (spends_free fun _ => count_texts_singleton hm .autoIncrement)
  · exact Spends.map (hset.mono fun t => (count_texts_singleton hm (.characterSet _)).le)
  · exact Spends.map (hcollation.mono fun t => (count_texts_singleton hm (.collate _)).le)
  · exact Spends.map (spends_free fun _ => count_texts_singleton hm .uniqueKey)
  · exact Spends.map (spends_free fun _ => count_texts_singleton hm .key)
  · exact Spends.map (hdefault.mono fun v => (count_texts_singleton hm (.default _)).le)
  · exact Spends.map (spends_free fun _ => rfl)
  · exact Spends.map (spends_free fun _ => rfl)
  · exact Spends.map (spends_free fun _ => rfl)

/-- **What is read as qualifiers has no more marks** than were taken from the text. -/
theorem spends_qualifiers (hm : m ∈ commentMarks) :
    (Rule.many (gap1 *> fieldQualifier)).Spends m fun qs =>
      (Qualifier.texts (qs.filterMap Qualifier.meaning?)).count m := by
  refine (spends_bind fun _ => spends_fieldQualifier hm).many rfl fun q qs => ?_
  rw [List.filterMap_cons]
  cases q.meaning? with
  | none => simp [Qualifier.texts]
  | some v => exact count_texts_cons v _

end Source

end SchemaDelta
