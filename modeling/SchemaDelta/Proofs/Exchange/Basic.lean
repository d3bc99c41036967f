/-
**Exchanging the text behind what a rule reads.**

A rule that reads the front of a text may have looked further than it has read: a word is read up
to the first character that does not belong to it, an alternative is given up because a quote is
never closed.  So when the text behind the front is exchanged for another one, the rule need not
read the front again.  It does under conditions on where it stops, and on the alternatives that it
gave up on the way.

Main definitions:

* `SchemaDelta.Rule.Tails` — a rule leaves the end of the text;
* `SchemaDelta.Rule.Starts` — a rule takes a character of a class, and the word in front in whole;
* `SchemaDelta.Exchange` — a text, what stands behind it, and what is put there instead;
* `SchemaDelta.Exchange.Reads` — a rule reads the front of a text with the old one behind it;
* `SchemaDelta.Exchange.Keeps` — what a rule reads with the old text behind it, it reads with the
  new one;
* `SchemaDelta.Exchange.StaysOut` — where a rule refuses with the old text behind, it does with the
  new one;
* `SchemaDelta.Exchange.appended` — the exchange of no text for some.

Main results:

* `SchemaDelta.Exchange.reads_bind` — the parts of a sequence are read one behind the other;
* `SchemaDelta.Exchange.Keeps.bind`, `SchemaDelta.Exchange.Keeps.orElse`,
  `SchemaDelta.Exchange.Keeps.many` and their companions — **what is put together from rules that
  survive the exchange survives it**, if they stop well.
-/

import SchemaDelta.Proofs.Word

set_option relaxedAutoImplicit false
set_option autoImplicit false

namespace SchemaDelta

namespace Rule

variable {α β γ : Type}

/-! ### What a rule leaves -/

/-- What a rule leaves is the end of the text. -/
class Tails (p : Rule α) : Prop where
  suffix : ∀ s a rest, p s = .ok a rest → rest <:+ s

instance (a : α) : Tails (pure a : Rule α) where
  suffix s b rest h := by
    cases h
    exact List.suffix_rfl

instance (p : Rule α) (f : α → Rule β) [Tails p] [∀ a, Tails (f a)] : Tails (p >>= f) where
  suffix s b rest h := by
    obtain ⟨a, mid, ha, hb⟩ := bind_eq_ok_iff.1 h
    exact (Tails.suffix mid b rest hb).trans (Tails.suffix s a mid ha)

instance (p : Rule α) (f : α → β) [Tails p] : Tails (f <$> p) where
  suffix s b rest h := by
    obtain ⟨a, ha, -⟩ := map_eq_ok_iff.1 h
    exact Tails.suffix s a rest ha

instance (p : Rule α) (q : Rule β) [Tails p] [Tails q] : Tails (p *> q) :=
  inferInstanceAs (Tails (p >>= fun _ => q))

instance (p : Rule α) (q : Rule β) [Tails p] [Tails q] : Tails (p <* q) :=
  inferInstanceAs (Tails (p >>= fun a => q >>= fun _ => pure a))

instance (p q : Rule α) [Tails p] [Tails q] : Tails (p <|> q) where
  suffix s a rest h := by
    rcases orElse_eq_ok h with h | ⟨-, h⟩
    · exact Tails.suffix s a rest h
    · exact Tails.suffix s a rest h

instance : Tails (firstOf ([] : List (Rule α))) where
  suffix s a rest h := by cases h

instance (p : Rule α) (ps : List (Rule α)) [hp : Tails p] [hps : Tails (firstOf ps)] :
    Tails (firstOf (p :: ps)) := by
  cases ps with
  | nil => exact hp
  | cons q qs => exact inferInstanceAs (Tails (p <|> firstOf (q :: qs)))

instance (p : Rule α) [Tails p] : Tails p.optional where
  suffix s o rest h := by
    rcases optional_eq_ok h with ⟨a, -, ha⟩ | ⟨-, -, rfl⟩
    · exact Tails.suffix s a rest ha
    · exact List.suffix_rfl

instance (p : Rule α) : Tails p.absent where
  suffix s u rest h := by
    rw [absent] at h
    split at h <;> cases h
    exact List.suffix_rfl

instance (p : Rule α) [Tails p] : Tails p.commit where
  suffix s a rest h := Tails.suffix s a rest (commit_eq_ok_iff.1 h)

instance (p : Rule α) (name : Construct) [Tails p] : Tails (p.within name) where
  suffix s a rest h := Tails.suffix s a rest (within_eq_ok_iff.1 h)

instance (p : Rule α) [Tails p] : Tails p.matched where
  suffix s t rest h := by
    obtain ⟨a, ha, -⟩ := matched_eq_ok h
    exact Tails.suffix s a rest ha

instance (p : Rule α) [Tails p] : Tails (Functor.discard p) where
  suffix s u rest h := by
    obtain ⟨a, ha⟩ := discard_eq_ok h
    exact Tails.suffix s a rest ha

instance (p : Rule α) [Tails p] : Tails p.many where
  suffix s as rest h := by
    fun_induction Rule.many p s generalizing as rest with
    | case1 s a mid hp hlt bs last hm ih =>
      cases h
      exact (ih bs last hm).trans (Tails.suffix s a mid hp)
    | case2 => cases h
    | case3 => cases h
    | case4 => cases h; exact List.suffix_rfl
    | case5 => cases h; exact List.suffix_rfl
    | case6 => cases h

instance (p : Rule α) [Tails p] : Tails p.many1 := by
  unfold many1
  infer_instance

instance (sep : Rule β) (p : Rule α) [Tails sep] [Tails p] : Tails (sepBy1 sep p) := by
  unfold sepBy1
  infer_instance

instance (f : Char → Bool) : Tails (satisfy f) where
  suffix s c rest h := by
    obtain ⟨rfl, -⟩ := satisfy_eq_ok_iff.1 h
    exact List.suffix_cons c rest

instance (c : Char) : Tails (char c) := by
  unfold char
  infer_instance

instance (cs : String) : Tails (oneOf cs) := by
  unfold oneOf
  infer_instance

instance (f : Char → Bool) : Tails (span f) where
  suffix s t rest h := by
    cases h
    exact List.dropWhile_suffix f

instance (f : Char → Bool) : Tails (span1 f) where
  suffix s t rest h := by
    obtain ⟨-, -, rfl⟩ := span1_eq_ok_iff.1 h
    exact List.dropWhile_suffix f

instance (n : Nat) (f : Char → Bool) : Tails (spanUpTo n f) where
  suffix s t rest h := by
    rw [spanUpTo] at h
    split at h <;> cases h
    exact List.drop_suffix _ s

instance (word : String) : Tails (literal word) where
  suffix s t rest h := by
    rw [literal] at h
    split at h <;> cases h
    exact List.drop_suffix _ s

/-! ### How what a rule reads starts -/

/-- What a rule reads starts with a character of the class, and no word runs on behind it that
stands in front. -/
def Starts (C : Char → Prop) (p : Rule α) : Prop :=
  ∀ s a rest, p s = .ok a rest →
    ∃ c t, s = c :: t ∧ C c ∧ rest <:+ t ∧ rest <:+ s.dropWhile isWordChar

variable {C D : Char → Prop} {p q : Rule α}

theorem Starts.mono (h : p.Starts C) (hC : ∀ c, C c → D c) : p.Starts D := by
  intro s a rest ha
  obtain ⟨c, t, rfl, hc, hrest⟩ := h s a rest ha
  exact ⟨c, t, rfl, hC c hc, hrest⟩

theorem Starts.bind {f : α → Rule β} [∀ a, Tails (f a)] (h : p.Starts C) : (p >>= f).Starts C := by
  intro s b rest h'
  obtain ⟨a, mid, ha, hb⟩ := bind_eq_ok_iff.1 h'
  obtain ⟨c, t, rfl, hc, htail, hword⟩ := h s a mid ha
  have hrest : rest <:+ mid := Tails.suffix mid b rest hb
  exact ⟨c, t, rfl, hc, hrest.trans htail, hrest.trans hword⟩

theorem Starts.map (h : p.Starts C) (f : α → β) : (f <$> p).Starts C := by
  intro s b rest hb
  obtain ⟨a, ha, -⟩ := map_eq_ok_iff.1 hb
  exact h s a rest ha

theorem Starts.matched (h : p.Starts C) : p.matched.Starts C := by
  intro s t rest ht
  obtain ⟨a, ha, -⟩ := matched_eq_ok ht
  exact h s a rest ha

theorem Starts.discard (h : p.Starts C) : Starts C (Functor.discard p) := by
  intro s u rest hu
  obtain ⟨a, ha⟩ := discard_eq_ok hu
  exact h s a rest ha

theorem Starts.within (h : p.Starts C) (name : Construct) : (p.within name).Starts C :=
  fun s a rest ha => h s a rest (within_eq_ok_iff.1 ha)

theorem Starts.commit (h : p.Starts C) : p.commit.Starts C :=
  fun s a rest ha => h s a rest (commit_eq_ok_iff.1 ha)

theorem Starts.orElse (hp : p.Starts C) (hq : q.Starts C) : (p <|> q).Starts C := by
  intro s a rest h
  rcases orElse_eq_ok h with h | ⟨-, h⟩
  · exact hp s a rest h
  · exact hq s a rest h

theorem starts_firstOf {ps : List (Rule α)} (h : ∀ p ∈ ps, p.Starts C) : (firstOf ps).Starts C := by
  intro s a rest ha
  obtain ⟨p, hp, ha⟩ := exists_of_firstOf_eq_ok ha
  exact h p hp s a rest ha

/-- Where a rule may be left out, what follows starts in the same way. -/
theorem Starts.optional_bind {f : Option α → Rule β} [∀ o, Tails (f o)] (hp : p.Starts C)
    (hf : (f none).Starts C) : (p.optional >>= f).Starts C := by
  intro s b rest h
  obtain ⟨o, mid, ho, hb⟩ := bind_eq_ok_iff.1 h
  rcases optional_eq_ok ho with ⟨a, rfl, ha⟩ | ⟨-, rfl, rfl⟩
  · exact (hp.bind (f := fun a => f (some a))) s b rest (bind_eq_ok_iff.2 ⟨a, mid, ha, hb⟩)
  · exact hf mid b rest hb

theorem Starts.absent_bind {f : Unit → Rule β} (hf : (f ()).Starts C) :
    (p.absent >>= f).Starts C := by
  intro s b rest h
  obtain ⟨⟨⟩, mid, habsent, hb⟩ := bind_eq_ok_iff.1 h
  rw [absent] at habsent
  split at habsent <;> cases habsent
  exact hf s b rest hb

theorem starts_satisfy {f : Char → Bool} (h : ∀ c, f c = true → C c ∧ isWordChar c = false) :
    (satisfy f).Starts C := by
  intro s c rest hc
  obtain ⟨rfl, hf⟩ := satisfy_eq_ok_iff.1 hc
  obtain ⟨hclass, hword⟩ := h c hf
  refine ⟨c, rest, rfl, hclass, List.suffix_rfl, ?_⟩
  rw [List.dropWhile_cons_of_neg (by simp [hword])]
  exact List.suffix_cons c rest

theorem starts_char {c : Char} (hclass : C c) (hword : isWordChar c = false) :
    (char c).Starts C := by
  refine starts_satisfy fun d hd => ?_
  obtain rfl : d = c := by simpa using hd
  exact ⟨hclass, hword⟩

/-- A run of characters takes the word in front if word characters belong to it. -/
theorem starts_span1 {f : Char → Bool} (h : ∀ c, isWordChar c = true → f c = true) :
    (span1 f).Starts fun c => f c = true := by
  have hdrop : ∀ s : Text, s.dropWhile f <:+ s.dropWhile isWordChar := by
    intro s
    induction s with
    | nil => exact List.suffix_rfl
    | cons c s ih =>
      by_cases hword : isWordChar c = true
      · rw [List.dropWhile_cons_of_pos hword, List.dropWhile_cons_of_pos (h c hword)]
        exact ih
      · rw [List.dropWhile_cons_of_neg hword]
        exact List.dropWhile_suffix f
  intro s t rest ht
  obtain ⟨hne, rfl, rfl⟩ := span1_eq_ok_iff.1 ht
  cases s with
  | nil => exact absurd rfl hne
  | cons c s =>
    by_cases hc : f c = true
    · refine ⟨c, s, rfl, hc, ?_, hdrop (c :: s)⟩
      rw [List.dropWhile_cons_of_pos hc]
      exact List.dropWhile_suffix f
    · exact absurd (List.takeWhile_cons_of_neg hc) hne

/-- A run of characters without word characters has no word in front. -/
theorem starts_span1_of_not_word {f : Char → Bool} (h : ∀ c, f c = true → isWordChar c = false) :
    (span1 f).Starts fun c => f c = true := by
  intro s t rest ht
  obtain ⟨hne, rfl, rfl⟩ := span1_eq_ok_iff.1 ht
  cases s with
  | nil => exact absurd rfl hne
  | cons c s =>
    by_cases hc : f c = true
    · refine ⟨c, s, rfl, hc, ?_, ?_⟩
      · rw [List.dropWhile_cons_of_pos hc]
        exact List.dropWhile_suffix f
      · rw [List.dropWhile_cons_of_neg (p := isWordChar) (by simp [h c hc])]
        exact List.dropWhile_suffix f
    · exact absurd (List.takeWhile_cons_of_neg hc) hne

theorem Starts.takes (h : p.Starts C) : Lexeme.Takes 1 p := by
  intro s a rest ha
  obtain ⟨c, t, rfl, -, hrest, -⟩ := h s a rest ha
  exact Nat.succ_le_succ hrest.length_le

theorem takes_zero (p : Rule α) [Tails p] : Lexeme.Takes 0 p :=
  fun s a rest ha => (Tails.suffix s a rest ha).length_le

/-! ### Refusals -/

theorem Refuses.of_orElse {s : Text} (h : (p <|> q).Refuses s) : p.Refuses s ∧ q.Refuses s := by
  obtain ⟨why, h⟩ := h
  rw [Rule.orElse_apply] at h
  cases hp : p s with
  | ok a rest => rw [hp] at h; cases h
  | mismatch why' => rw [hp] at h; exact ⟨⟨why', hp⟩, ⟨why, h⟩⟩
  | abort why' => rw [hp] at h; cases h

theorem Refuses.of_bind_pure {f : α → β} {s : Text} (h : (p >>= fun a => pure (f a)).Refuses s) :
    p.Refuses s := by
  obtain ⟨why, h⟩ := h
  rw [bind_apply] at h
  cases hp : p s with
  | ok a rest => rw [hp] at h; cases h
  | mismatch why' => exact ⟨why', hp⟩
  | abort why' => rw [hp] at h; cases h

theorem Mild.map (h : p.Mild) (f : α → β) : (f <$> p).Mild :=
  h.bind fun _ => mild_pure _

theorem mild_firstOf {ps : List (Rule α)} (h : ∀ p ∈ ps, p.Mild) : (firstOf ps).Mild := by
  induction ps with
  | nil => exact fun _ _ hs => by cases hs
  | cons p ps ih =>
    cases ps with
    | nil => exact h p List.mem_cons_self
    | cons q qs =>
      exact (h p List.mem_cons_self).orElse (ih fun r hr => h r (List.mem_cons_of_mem p hr))

theorem Refuses.of_firstOf {ps : List (Rule α)} {s : Text} (h : (firstOf ps).Refuses s) :
    ∀ p ∈ ps, p.Refuses s := by
  induction ps with
  | nil => exact fun p hp => absurd hp List.not_mem_nil
  | cons p ps ih =>
    cases ps with
    | nil =>
      intro r hr
      obtain rfl := List.mem_singleton.1 hr
      exact h
    | cons q qs =>
      obtain ⟨hp, hqs⟩ := Refuses.of_orElse h
      intro r hr
      rcases List.mem_cons.1 hr with rfl | hr
      · exact hp
      · exact ih hqs r hr

end Rule

/-! ### Exchanges -/

/-- A text, what stands behind it, and what is put there instead. -/
structure Exchange where
  /-- The text in front, to the ends of which rules are applied. -/
  whole : Text
  /-- What stands behind it. -/
  old : Text
  /-- What is put there instead. -/
  new : Text

namespace Exchange

open Rule

variable (x : Exchange) {α β γ : Type} {p q : Rule α} {L M : Text → Prop} {s r m : Text}

/-- With the old text behind, a rule reads a value and leaves the given part of the front. -/
def Reads (p : Rule α) (s : Text) (a : α) (r : Text) : Prop :=
  p (s ++ x.old) = .ok a (r ++ x.old)

/-- What a rule reads with the old text behind, it reads with the new one, provided that it leaves
a part of the front with the given property. -/
def Keeps (p : Rule α) (L : Text → Prop) : Prop :=
  ∀ s a r, s <:+ x.whole → L r → x.Reads p s a r → p (s ++ x.new) = .ok a (r ++ x.new)

/-- If a rule refuses the front with the old text behind, it does with the new one. -/
def StaysOut (p : Rule α) (s : Text) : Prop :=
  p.Refuses (s ++ x.old) → p.Refuses (s ++ x.new)

/-- The exchange in the other direction. -/
def swap : Exchange :=
  ⟨x.whole, x.new, x.old⟩

variable {x}

/-! ### What is read behind one another -/

theorem Reads.suffix {a : α} [Tails p] (h : x.Reads p s a r) : r <:+ s := by
  obtain ⟨w, hw⟩ : r ++ x.old <:+ s ++ x.old := Tails.suffix _ a _ h
  rw [← List.append_assoc] at hw
  exact ⟨w, List.append_cancel_right hw⟩

theorem ne_nil_of_reads {a : α} [Tails p] (h : x.Reads p s a r) (hr : r ≠ []) : s ≠ [] := by
  rintro rfl
  exact hr (List.suffix_nil.1 h.suffix)

/-- The second part of a sequence is read behind the first one. -/
theorem reads_bind {f : α → Rule β} {b : β} [Tails p] [∀ a, Tails (f a)]
    (h : x.Reads (p >>= f) s b r) :
    ∃ a m, x.Reads p s a m ∧ x.Reads (f a) m b r ∧ m <:+ s ∧ r <:+ m := by
  obtain ⟨a, mid, ha, hb⟩ := bind_eq_ok_iff.1 h
  obtain ⟨w, rfl⟩ : r ++ x.old <:+ mid := Tails.suffix _ b _ hb
  rw [← List.append_assoc] at ha hb
  have hp : x.Reads p s a (w ++ r) := ha
  have hf : x.Reads (f a) (w ++ r) b r := hb
  exact ⟨a, w ++ r, hp, hf, hp.suffix, hf.suffix⟩

theorem reads_pure {a b : α} (h : x.Reads (pure a) s b r) : b = a ∧ r = s := by
  have h : Outcome.ok a (s ++ x.old) = .ok b (r ++ x.old) := h
  rw [Outcome.ok.injEq] at h
  exact ⟨h.1.symm, (List.append_cancel_right h.2).symm⟩

theorem reads_map {f : α → β} {b : β} (h : x.Reads (f <$> p) s b r) :
    ∃ a, f a = b ∧ x.Reads p s a r := by
  obtain ⟨a, ha, hb⟩ := map_eq_ok_iff.1 h
  exact ⟨a, hb, ha⟩

theorem reads_matched {t : Text} (h : x.Reads p.matched s t r) : ∃ a, x.Reads p s a r := by
  obtain ⟨a, ha, -⟩ := matched_eq_ok h
  exact ⟨a, ha⟩

theorem reads_optional {o : Option α} (h : x.Reads p.optional s o r) :
    (∃ a, o = some a ∧ x.Reads p s a r) ∨ p.Refuses (s ++ x.old) ∧ o = none ∧ r = s := by
  rcases optional_eq_ok h with h | ⟨hrefuses, hnone, hrest⟩
  · exact .inl h
  · exact .inr ⟨hrefuses, hnone, List.append_cancel_right hrest⟩

/-- One step of a repetition. -/
theorem reads_many {as : List α} [Tails p] (htakes : Lexeme.Takes 1 p) (h : x.Reads p.many s as r) :
    (∃ a m bs, as = a :: bs ∧ x.Reads p s a m ∧ x.Reads p.many m bs r ∧ m <:+ s ∧ r <:+ m) ∨
      p.Refuses (s ++ x.old) ∧ as = [] ∧ r = s := by
  cases hp : p (s ++ x.old) with
  | ok a rest =>
    have hlt : rest.length < (s ++ x.old).length := htakes _ a rest hp
    obtain ⟨bs, rfl, hmany⟩ := exists_of_many_eq_ok hp hlt h
    obtain ⟨w, rfl⟩ : r ++ x.old <:+ rest := Tails.suffix _ bs _ hmany
    rw [← List.append_assoc] at hp hmany
    have hread : x.Reads p s a (w ++ r) := hp
    have hrest : x.Reads p.many (w ++ r) bs r := hmany
    exact .inl ⟨a, w ++ r, bs, rfl, hread, hrest, hread.suffix, hrest.suffix⟩
  | mismatch why =>
    have h : p.many (s ++ x.old) = .ok as (r ++ x.old) := h
    rw [many_of_mismatch hp, Outcome.ok.injEq] at h
    exact .inr ⟨⟨why, hp⟩, h.1.symm, (List.append_cancel_right h.2).symm⟩
  | abort why =>
    have h : p.many (s ++ x.old) = .ok as (r ++ x.old) := h
    rw [many_of_abort hp] at h
    cases h

/-! ### Refusals that stay -/

theorem StaysOut.of_refuses (h : ∀ z, p.Refuses (s ++ z)) : x.StaysOut p s :=
  fun _ => h x.new

/-- A rule that refuses what it does not read stays out where what it would read with the new text
was not refused with the old one. -/
theorem staysOut_of_mild (hmild : p.Mild)
    (h : ∀ a rest, p (s ++ x.new) = .ok a rest → ¬ p.Refuses (s ++ x.old)) : x.StaysOut p s :=
  fun hrefuses => hmild.refuses fun a rest hread => h a rest hread hrefuses

theorem StaysOut.map (h : x.StaysOut p s) (f : α → β) : x.StaysOut (f <$> p) s := by
  rintro ⟨why, hwhy⟩
  rw [map_apply] at hwhy
  cases hp : p (s ++ x.old) with
  | ok a rest => rw [hp] at hwhy; cases hwhy
  | mismatch why' => exact (h ⟨why', hp⟩).map f
  | abort why' => rw [hp] at hwhy; cases hwhy

theorem StaysOut.matched (h : x.StaysOut p s) : x.StaysOut p.matched s := by
  rintro ⟨why, hwhy⟩
  cases hp : p (s ++ x.old) with
  | ok a rest => rw [Rule.matched, hp] at hwhy; cases hwhy
  | mismatch why' => exact (h ⟨why', hp⟩).matched
  | abort why' => rw [Rule.matched, hp] at hwhy; cases hwhy

theorem StaysOut.orElse (hp : x.StaysOut p s) (hq : x.StaysOut q s) : x.StaysOut (p <|> q) s :=
  fun h => (hp h.of_orElse.1).orElse (hq h.of_orElse.2)

theorem staysOut_firstOf {ps : List (Rule α)} (h : ∀ p ∈ ps, x.StaysOut p s) :
    x.StaysOut (firstOf ps) s := by
  induction ps with
  | nil => exact fun _ => ⟨⟨s ++ x.new, []⟩, rfl⟩
  | cons p ps ih =>
    cases ps with
    | nil => exact h p List.mem_cons_self
    | cons q qs =>
      rw [firstOf_cons_cons]
      exact (h p List.mem_cons_self).orElse (ih fun r hr => h r (List.mem_cons_of_mem p hr))

/-- A sequence stays out if its first part does, and where that part is read, the second one. -/
theorem StaysOut.bind {f : α → Rule β} (hp : x.StaysOut p s)
    (hf : ∀ a rest, p (s ++ x.old) = .ok a rest → (f a).Refuses rest →
      (p >>= f).Refuses (s ++ x.new)) : x.StaysOut (p >>= f) s := by
  rintro ⟨why, hwhy⟩
  rw [bind_apply] at hwhy
  cases hread : p (s ++ x.old) with
  | ok a rest => rw [hread] at hwhy; exact hf a rest hread ⟨why, hwhy⟩
  | mismatch why' => exact (hp ⟨why', hread⟩).bind f
  | abort why' => rw [hread] at hwhy; cases hwhy

/-- Where the first part is read with either text, the second one decides. -/
theorem Keeps.staysOut_bind {f : α → Rule β} {a : α} (hp : x.Keeps p M) (hs : s <:+ x.whole)
    (hm : M m) (ha : x.Reads p s a m) (hf : x.StaysOut (f a) m) : x.StaysOut (p >>= f) s := by
  rintro ⟨why, hwhy⟩
  have ha' : p (s ++ x.old) = .ok a (m ++ x.old) := ha
  rw [bind_of_ok ha'] at hwhy
  exact refuses_bind_of_ok (hp s a m hs hm ha) (hf ⟨why, hwhy⟩)

/-- A prohibition stays out if what is forbidden does so in either direction. -/
theorem staysOut_absent_bind {f : Unit → Rule β} (hmild : p.Mild) (hp : x.swap.StaysOut p s)
    (hf : x.StaysOut (f ()) s) : x.StaysOut (p.absent >>= f) s := by
  rintro ⟨why, hwhy⟩
  cases hnew : p (s ++ x.new) with
  | ok a rest => exact (refuses_absent_of_ok hnew).bind f
  | mismatch why' =>
    have hold : p.Refuses (s ++ x.old) := hp ⟨why', hnew⟩
    rw [bind_of_ok hold.absent] at hwhy
    exact refuses_bind_of_ok (Refuses.absent ⟨why', hnew⟩) (hf ⟨why, hwhy⟩)
  | abort why' => exact absurd hnew (hmild _ why')

/-! ### What survives the exchange -/

theorem Keeps.mono (h : x.Keeps p M) (hL : ∀ r, L r → M r) : x.Keeps p L :=
  fun s a r hs hr ha => h s a r hs (hL r hr) ha

theorem keeps_pure (a : α) : x.Keeps (pure a) L := by
  intro s b r _ _ h
  obtain ⟨rfl, rfl⟩ := reads_pure h
  rfl

/-- **A sequence survives the exchange** if its parts do, and the first one stops well in front of
the second one. -/
theorem Keeps.bind {f : α → Rule β} [Tails p] [∀ a, Tails (f a)] (hp : x.Keeps p M)
    (hf : ∀ a, x.Keeps (f a) L)
    (hmid : ∀ s a m b r, x.Reads p s a m → x.Reads (f a) m b r → L r → M m) :
    x.Keeps (p >>= f) L := by
  intro s b r hs hr h
  obtain ⟨a, m, ha, hb, hm, -⟩ := reads_bind h
  rw [bind_of_ok (hp s a m hs (hmid s a m b r ha hb hr) ha)]
  exact hf a m b r (hm.trans hs) hr hb

/-- It does so if the first part may stop anywhere. -/
theorem Keeps.andThen {f : α → Rule β} [Tails p] [∀ a, Tails (f a)]
    (hp : x.Keeps p fun _ => True) (hf : ∀ a, x.Keeps (f a) L) : x.Keeps (p >>= f) L :=
  hp.bind hf fun _ _ _ _ _ _ _ _ => trivial

theorem Starts.ne_nil {C : Char → Prop} {a : α} (h : p.Starts C) (ha : x.Reads p s a r) :
    ∃ c t, s = c :: t ∧ C c ∧ r <:+ t := by
  obtain ⟨c, t, hs, hc, hrest, -⟩ := h _ a _ ha
  cases s with
  | nil =>
    have hlen := hrest.length_le
    have hold := congrArg List.length hs
    simp only [List.nil_append, List.length_cons, List.length_append] at hlen hold
    omega
  | cons d u =>
    rw [List.cons_append, List.cons.injEq] at hs
    obtain ⟨rfl, rfl⟩ := hs
    obtain ⟨w, hw⟩ := hrest
    rw [← List.append_assoc] at hw
    exact ⟨d, u, rfl, hc, w, List.append_cancel_right hw⟩

/-- Or if it stops well in front of any text, and the second part reads some. -/
theorem Keeps.bind_starts {f : α → Rule β} {C : Char → Prop} [Tails p] [∀ a, Tails (f a)]
    (hp : x.Keeps p (· ≠ [])) (hf : ∀ a, x.Keeps (f a) L) (hstart : ∀ a, (f a).Starts C) :
    x.Keeps (p >>= f) L := by
  refine hp.bind hf fun s a m b r _ hb _ => ?_
  obtain ⟨c, t, rfl, -⟩ := Starts.ne_nil (hstart a) hb
  exact List.cons_ne_nil c t

theorem ne_nil_of_takes {a : α} (htakes : Lexeme.Takes 1 p) (h : x.Reads p s a r) : s ≠ [] := by
  rintro rfl
  have hlen := htakes _ a _ h
  rw [List.length_append, List.nil_append] at hlen
  omega

/-- The same goes for a second part that takes something, be it the last text of the front. -/
theorem Keeps.bind_takes {f : α → Rule β} [Tails p] [∀ a, Tails (f a)] (hp : x.Keeps p (· ≠ []))
    (hf : ∀ a, x.Keeps (f a) L) (htakes : ∀ a, Lexeme.Takes 1 (f a)) : x.Keeps (p >>= f) L :=
  hp.bind hf fun _ a _ _ _ _ hb _ => ne_nil_of_takes (htakes a) hb

theorem Keeps.map (h : x.Keeps p L) (f : α → β) : x.Keeps (f <$> p) L := by
  intro s b r hs hr hb
  obtain ⟨a, rfl, ha⟩ := reads_map hb
  rw [map_apply, h s a r hs hr ha]

theorem Keeps.discard (h : x.Keeps p L) : x.Keeps (Functor.discard p) L :=
  h.map fun _ => ()

theorem Keeps.within (h : x.Keeps p L) (name : Construct) : x.Keeps (p.within name) L :=
  fun s a r hs hr ha => within_eq_ok_iff.2 (h s a r hs hr (within_eq_ok_iff.1 ha))

theorem Keeps.matched [Tails p] (h : x.Keeps p L) : x.Keeps p.matched L := by
  intro s t r hs hr ht
  obtain ⟨a, ha, rfl⟩ := matched_eq_ok ht
  have ha : x.Reads p s a r := ha
  obtain ⟨front, rfl⟩ := ha.suffix
  have hnew := h _ a r hs hr ha
  rw [List.append_assoc] at hnew
  have htext : (front ++ r ++ x.old).take
      ((front ++ r ++ x.old).length - (r ++ x.old).length) = front := by
    rw [List.append_assoc, List.length_append, Nat.add_sub_cancel, List.take_left]
  rw [htext, List.append_assoc]
  exact matched_of_ok hnew

/-- **A choice survives the exchange** if its alternatives do, and the first one stays out where
the second one is read. -/
theorem Keeps.orElse (hp : x.Keeps p L) (hq : x.Keeps q L)
    (hout : ∀ s a r, s <:+ x.whole → x.Reads q s a r → L r → x.StaysOut p s) :
    x.Keeps (p <|> q) L := by
  intro s a r hs hr h
  rcases orElse_eq_ok h with h | ⟨hrefuses, h⟩
  · exact orElse_of_ok (hp s a r hs hr h) q
  · rw [(hout s a r hs h hr hrefuses).orElse_apply]
    exact hq s a r hs hr h

theorem keeps_firstOf {ps : List (Rule α)} (hps : ∀ p ∈ ps, x.Keeps p L)
    (hout : ps.Pairwise fun p q => ∀ s a r, s <:+ x.whole → x.Reads q s a r → L r → x.StaysOut p s) :
    x.Keeps (firstOf ps) L := by
  induction ps with
  | nil => intro s a r _ _ h; cases h
  | cons p ps ih =>
    cases ps with
    | nil => exact hps p List.mem_cons_self
    | cons q qs =>
      rw [List.pairwise_cons] at hout
      rw [firstOf_cons_cons]
      refine (hps p List.mem_cons_self).orElse
        (ih (fun r hr => hps r (List.mem_cons_of_mem p hr)) hout.2) fun s a r hs h hr => ?_
      obtain ⟨p', hp', ha⟩ := exists_of_firstOf_eq_ok h
      exact hout.1 p' hp' s a r hs ha hr

/-- What may be left out survives the exchange, if it stays out where it is left out. -/
theorem Keeps.optional_bind {f : Option α → Rule β} [Tails p] [∀ o, Tails (f o)] (hp : x.Keeps p M)
    (hf : ∀ o, x.Keeps (f o) L) (hmid : ∀ a m b r, x.Reads (f (some a)) m b r → L r → M m)
    (hout : ∀ s b r, s <:+ x.whole → x.Reads (f none) s b r → L r → x.StaysOut p s) :
    x.Keeps (p.optional >>= f) L := by
  intro s b r hs hr h
  obtain ⟨o, m, ho, hb, hm, -⟩ := reads_bind h
  rcases reads_optional ho with ⟨a, rfl, ha⟩ | ⟨hrefuses, rfl, rfl⟩
  · rw [bind_of_ok (optional_of_ok (hp s a m hs (hmid a m b r hb hr) ha))]
    exact hf _ m b r (hm.trans hs) hr hb
  · rw [bind_of_ok (hout m b r hs hb hr hrefuses).optional]
    exact hf _ m b r hs hr hb

theorem Keeps.optional [Tails p] (hp : x.Keeps p L)
    (hout : ∀ s, s <:+ x.whole → L s → x.StaysOut p s) : x.Keeps p.optional L := by
  rw [← bind_pure p.optional]
  refine hp.optional_bind (fun o => keeps_pure o) (fun a m b r h hr => ?_) fun s b r hs h hr => ?_
  · obtain ⟨-, rfl⟩ := reads_pure h
    exact hr
  · obtain ⟨-, rfl⟩ := reads_pure h
    exact hout r hs hr

/-- A prohibition survives the exchange if what is forbidden stays out. -/
theorem Keeps.absent_bind {f : Unit → Rule β} [Tails (f ())] (hf : x.Keeps (f ()) L)
    (hout : ∀ s b r, s <:+ x.whole → x.Reads (f ()) s b r → L r → x.StaysOut p s) :
    x.Keeps (p.absent >>= f) L := by
  intro s b r hs hr h
  obtain ⟨⟨⟩, mid, habsent, hb⟩ := bind_eq_ok_iff.1 h
  rw [Rule.absent] at habsent
  cases hp : p (s ++ x.old) with
  | ok a rest => rw [hp] at habsent; cases habsent
  | mismatch why =>
    rw [hp] at habsent
    cases habsent
    have hnew := (hout s b r hs hb hr ⟨why, hp⟩).absent
    rw [bind_of_ok hnew]
    exact hf s b r hs hr hb
  | abort why => rw [hp] at habsent; cases habsent

/-- **A repetition survives the exchange** if its values do, and it stays where it has ended. -/
theorem Keeps.many [Tails p] (hp : x.Keeps p M) (htakes : Lexeme.Takes 1 p)
    (hmid : ∀ m as r, m <:+ x.whole → x.Reads p.many m as r → L r → M m)
    (hout : ∀ s, s <:+ x.whole → L s → x.StaysOut p s) : x.Keeps p.many L := by
  intro s as r hs hr h
  induction as generalizing s with
  | nil =>
    rcases reads_many htakes h with ⟨a, m, bs, heq, -⟩ | ⟨hrefuses, -, rfl⟩
    · cases heq
    · exact (hout r hs hr hrefuses).many
  | cons a as ih =>
    rcases reads_many htakes h with ⟨a', m, bs, heq, ha, hmany, hm, -⟩ | ⟨-, heq, -⟩
    · cases heq
      have hm' := hm.trans hs
      have hnew := hp s a m hs (hmid m as r hm' hmany hr) ha
      exact many_eq_cons hnew (htakes _ a _ hnew) (ih m hm' hmany)
    · cases heq

/-! ### More text behind a text -/

/-- More text is put behind a text. -/
def appended (front behind : Text) : Exchange :=
  ⟨front, [], behind⟩

variable {front behind : Text}

theorem append_old (s : Text) : s ++ (appended front behind).old = s :=
  List.append_nil s

theorem reads_appended {a : α} : (appended front behind).Reads p s a r ↔ p s = .ok a r := by
  rw [Reads, append_old, append_old]

theorem refuses_appended : p.Refuses (s ++ (appended front behind).old) ↔ p.Refuses s := by
  rw [append_old]

/-- What survives the exchange is read with more text behind. -/
theorem Keeps.append {a : α} (h : (appended s behind).Keeps p L) (hr : L r) (ha : p s = .ok a r) :
    p (s ++ behind) = .ok a (r ++ behind) :=
  h s a r List.suffix_rfl hr (reads_appended.2 ha)

end Exchange

end SchemaDelta
