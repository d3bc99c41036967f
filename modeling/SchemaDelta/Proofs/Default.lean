/-
**Default values.**

A default is a string, a number of bits, the time of the change, or any other word, which is kept
as it was written.  The first three are read back wherever a stop follows.  A word is read back
unless it reads as the time of the change together with what stands behind it.  That needs a word
that starts with `now` and two dashes: the dashes open a comment, and a call may follow after the
end of the line.

Main definitions:

* `SchemaDelta.Source.IsBits` — the digits of a number of bits;
* `SchemaDelta.Source.IsToken` — the words that are kept as they were written;
* `SchemaDelta.Source.ReadsAsTime` — a text starts like the time of the change.

Main results:

* `SchemaDelta.Source.bitLiteral_eq_ok_iff` — what is read as a number of bits;
* `SchemaDelta.Source.yields_defaultClause` — what is read as a default is well formed;
* `SchemaDelta.Source.defaultValue_append` — **a default is read back** in front of any stop, if it
  does not run on into a call;
* `SchemaDelta.Source.readsAsTime_iff` — **which words run on**, namely some with two dashes.
-/

import SchemaDelta.Proofs.Quoted
import SchemaDelta.Script.Writing
import SchemaDelta.Source.Meaning

set_option relaxedAutoImplicit false
set_option autoImplicit false

namespace SchemaDelta

/-! ### Binary digits -/

namespace Text

theorem isBit_bitDigit (n : Nat) : Source.isBit (bitDigit n) = true := by
  rw [bitDigit]
  split <;> rfl

theorem binary_ne_nil (n : Nat) : binary n ≠ [] := by
  rw [binary]
  split <;> simp

theorem isBit_of_mem_binary (n : Nat) : ∀ c ∈ binary n, Source.isBit c = true := by
  induction n using Nat.strongRecOn with
  | ind n ih =>
      intro c hc
      rw [binary] at hc
      split at hc
      · obtain rfl : c = bitDigit n := by simpa using hc
        exact isBit_bitDigit n
      · rcases List.mem_append.1 hc with hc | hc
        · exact ih (n / 2) (by omega) c hc
        · obtain rfl : c = bitDigit n := by simpa using hc
          exact isBit_bitDigit n

theorem not_mem_binary {c : Char} (hc : Source.isBit c = false) (n : Nat) : c ∉ binary n := by
  intro hmem
  rw [isBit_of_mem_binary n c hmem] at hc
  cases hc

theorem length_binary_le {n k : Nat} (h : n < Nat.pow 2 (k + 1)) : (binary n).length ≤ k + 1 := by
  induction k generalizing n with
  | zero =>
      have hn : n < 2 := h
      rw [binary, if_pos hn]
      exact Nat.le_refl 1
  | succ k ih =>
      rw [binary]
      split
      · exact Nat.succ_le_succ (Nat.zero_le _)
      · have hpow : Nat.pow 2 (k + 1 + 1) = Nat.pow 2 (k + 1) * 2 := rfl
        have hhalf := ih (n := n / 2) (by omega)
        rw [List.length_append, List.length_singleton]
        omega

/-- The digits of a number stand for it. -/
theorem bitValue_binary (n : Nat) : Source.bitValue (binary n) = n := by
  have hdigit : ∀ n, (if bitDigit n = '1' then 1 else 0) = n % 2 := by
    intro n
    rw [bitDigit]
    split <;> split <;> simp_all
  induction n using Nat.strongRecOn with
  | ind n ih =>
      rw [binary]
      split
      · have hn := hdigit n
        have hvalue : Source.bitValue [bitDigit n] = if bitDigit n = '1' then 1 else 0 := by
          simp [Source.bitValue]
        omega
      · have hhalf := ih (n / 2) (by omega)
        have hn := hdigit n
        rw [Source.bitValue_append, hhalf]
        omega

end Text

namespace Source

open Rule Lexeme

variable {s raw rest : Text}

/-! ### Words that are kept -/

/-- The letters of a keyword in either case. -/
def HasLetters (t : Text) (word : String) : Prop :=
  t.map lowerChar = word.toList.map fun d => [d]

/-- A word that is kept as a default: it opens no comment and is not the time of the change. -/
structure IsToken (raw : Text) : Prop where
  ne_nil : raw ≠ []
  chars : ∀ c ∈ raw, isTokenChar c = true
  not_dashes : ¬ ['-', '-'] <+: raw
  not_time : ∀ front tail, raw = front ++ tail → HasLetters front "current_timestamp" →
    ¬ WordEnds tail

end Source

/-- The default values that a schema which was read can have. -/
def DefaultValue.WellFormed : DefaultValue → Prop
  | .unclassified raw => Source.IsToken raw
  | _ => True

namespace Source

open Rule Lexeme

variable {s raw rest : Text}

/-- A text starts like the time of the change. -/
def ReadsAsTime (s : Text) : Prop :=
  ∃ u rest, currentTime s = .ok u rest

theorem mild_emptyCall : emptyCall.Mild :=
  (mild_satisfy _).bind fun _ => mild_gap0.bind fun _ => (mild_span1 _).optional.bind fun _ =>
    mild_gap0.bind fun _ => (mild_satisfy _).bind fun _ => mild_pure _

theorem mild_currentTime : currentTime.Mild := by
  refine Mild.orElse ?_ ?_
  · refine (mild_keyword _).bind fun _ => Mild.bind ?_ fun _ => mild_pure _
    exact (mild_gap0.bind fun _ => mild_emptyCall).optional
  · exact (mild_keyword _).bind fun _ => mild_gap0.bind fun _ => mild_emptyCall

theorem isTokenChar_of_isWordChar {c : Char} (h : isWordChar c = true) : isTokenChar c = true := by
  simp [isTokenChar, h]

/-- A run of token characters in front lies within the first such run. -/
theorem exists_of_append_eq {front tail : Text} (h : raw ++ rest = front ++ tail)
    (hfront : ∀ c ∈ front, isTokenChar c = true)
    (hrest : ∀ c ∈ rest.head?, isTokenChar c = false) :
    ∃ mid, raw = front ++ mid ∧ tail = mid ++ rest := by
  rcases List.append_eq_append_iff.1 h with ⟨mid, hfront', hrest'⟩ | ⟨mid, hraw, htail⟩
  · cases mid with
    | nil => exact ⟨[], by simpa using hfront'.symm, by simpa using hrest'.symm⟩
    | cons c mid =>
        have hc : isTokenChar c = true := hfront c (by simp [hfront'])
        have hc' : isTokenChar c = false := hrest c (by simp [hrest'])
        rw [hc] at hc'
        cases hc'
  · exact ⟨mid, hraw, htail⟩

theorem exists_of_keyword {word : String} {t tail : Text}
    (hplain : word.toList.all isPlainLetter = true) (hword : word.toList.all isWordChar = true)
    (h : keyword word (raw ++ rest) = .ok t tail)
    (hrest : ∀ c ∈ rest.head?, isTokenChar c = false) :
    HasLetters t word ∧ ∃ mid, raw = t ++ mid ∧ tail = mid ++ rest ∧ WordEnds (mid ++ rest) := by
  obtain ⟨⟨happend, hletters⟩, hends⟩ := (keyword_eq_ok_iff hplain).1 h
  have hchars := isWordChar_of_map_lowerChar hplain hword hletters
  obtain ⟨mid, hraw, rfl⟩ := exists_of_append_eq happend
    (fun c hc => isTokenChar_of_isWordChar (hchars c hc)) hrest
  exact ⟨hletters, mid, hraw, rfl, hends⟩

/-- A word that is kept is not the time of the change, whatever follows. -/
theorem IsToken.refuses_keyword (h : IsToken raw) (hrest : ∀ c ∈ rest.head?, isTokenChar c = false) :
    (keyword "current_timestamp").Refuses (raw ++ rest) := by
  refine (mild_keyword _).refuses fun t tail hok => ?_
  obtain ⟨hletters, mid, hraw, -, hends⟩ := exists_of_keyword (by decide) (by decide) hok hrest
  exact h.not_time t mid hraw hletters (WordEnds.of_append hends)

/-- Where a word does not go on with a letter, nothing but two dashes is a gap in it. -/
theorem exists_dashes_of_not_solid {t : Text} (hne : t ≠ [])
    (hchars : ∀ c ∈ t, isTokenChar c = true) (hends : WordEnds t)
    (hrest : ∀ c ∈ rest.head?, isTokenChar c = false) (hsolid : ¬ Solid (t ++ rest)) :
    ∃ t', t = '-' :: '-' :: t' := by
  obtain ⟨d, t, rfl⟩ := List.exists_cons_of_ne_nil hne
  have htoken : isTokenChar d = true := hchars d List.mem_cons_self
  have hword : isWordChar d = false := hends d rfl
  by_cases hdash : d = '-'
  · subst hdash
    by_cases hnext : ∃ t', t = '-' :: t'
    · obtain ⟨t', rfl⟩ := hnext
      exact ⟨t', rfl⟩
    · refine absurd (solid_dash fun e he => ?_) hsolid
      rintro rfl
      cases t with
      | nil => exact absurd (hrest '-' he) (by decide)
      | cons e t =>
          cases he
          exact hnext ⟨t, rfl⟩
  · refine absurd (solid_of_head ?_ (t ++ rest)) hsolid
    simp only [isTokenChar, hword, Bool.false_or, Bool.or_eq_true, beq_iff_eq] at htoken
    rcases htoken with (rfl | rfl) | rfl
    · decide
    · decide
    · exact absurd rfl hdash

/-- **Only a word with two dashes after `now` runs on** into the time of the change, and only if
there is a call after the comment that the dashes open. -/
theorem readsAsTime_iff (h : IsToken raw) (hrest : ∀ c ∈ rest.head?, isTokenChar c = false)
    (hcall : NoCall rest) :
    ReadsAsTime (raw ++ rest) ↔
      ∃ front tail u last, raw = front ++ '-' :: '-' :: tail ∧ HasLetters front "now" ∧
        (gap0 *> emptyCall) ('-' :: '-' :: tail ++ rest) = .ok u last := by
  constructor
  · rintro ⟨u, last, hread⟩
    rcases orElse_eq_ok hread with htime | ⟨-, hnow⟩
    · -- the longer name of the time is no word that is kept
      obtain ⟨t, tail, hok, -⟩ := bind_eq_ok_iff.1 htime
      obtain ⟨why, hno⟩ := h.refuses_keyword hrest
      rw [hno] at hok
      cases hok
    obtain ⟨front, tail, hok, hnow⟩ := bind_eq_ok_iff.1 hnow
    obtain ⟨hletters, mid, hraw, rfl, hends⟩ := exists_of_keyword (by decide) (by decide) hok hrest
    obtain ⟨u', after, hgap, hparens⟩ := bind_eq_ok_iff.1 hnow
    obtain ⟨c, after', hopen, -⟩ := bind_eq_ok_iff.1 hparens
    obtain ⟨rfl, -⟩ := char_eq_ok_iff.1 hopen
    have hchars : ∀ c ∈ mid, isTokenChar c = true := fun c hc => h.chars c (by simp [hraw, hc])
    have hne : mid ≠ [] := by
      rintro rfl
      obtain ⟨d, t, hgap', hd⟩ := hcall
      rw [List.nil_append, hgap'] at hgap
      cases hgap
      exact hd rfl
    -- a solid text after the word is no call
    have hsolid : ¬ Solid (mid ++ rest) := by
      intro hsolid
      obtain ⟨d, mid, rfl⟩ := List.exists_cons_of_ne_nil hne
      rw [gap0_of_solid hsolid] at hgap
      cases hgap
      exact absurd (hchars '(' List.mem_cons_self) (by decide)
    obtain ⟨mid', rfl⟩ := exists_dashes_of_not_solid hne hchars hends.of_append hrest hsolid
    exact ⟨front, mid', u, last, hraw, hletters, hnow⟩
  · rintro ⟨front, tail, u, last, rfl, hletters, hnow⟩
    have hkeyword : keyword "now" (front ++ ('-' :: '-' :: tail ++ rest)) =
        .ok front ('-' :: '-' :: tail ++ rest) :=
      (keyword_eq_ok_iff (by decide)).2 ⟨⟨rfl, hletters⟩, wordEnds_cons (by decide) _⟩
    have hrefuses := (h.refuses_keyword hrest).bind fun _ => do
      let _ ← Rule.optional (gap0 *> emptyCall)
    refine ⟨u, last, (hrefuses.orElse_apply _).trans ?_⟩
    rw [List.append_assoc]
    exact (bind_of_ok hkeyword _).trans hnow

/-! ### Numbers of bits -/

/-- The digits of a number of 64 bits at most. -/
structure IsBits (digits : Text) : Prop where
  ne_nil : digits ≠ []
  bits : ∀ c ∈ digits, isBit c = true
  length_le : digits.length ≤ 64

theorem IsBits.bits?_eq_some {digits : Text} (h : IsBits digits) :
    bits? digits = some (UInt64.ofNat (bitValue digits)) :=
  Source.bits?_eq_some h.ne_nil h.bits h.length_le

theorem spanUpTo_append {n : Nat} {f : Char → Bool} {t : Text} (hne : t ≠ [])
    (ht : ∀ c ∈ t, f c = true) (hlen : t.length ≤ n) (rest : Text)
    (hrest : ∀ c ∈ rest.head?, f c = false) : spanUpTo n f (t ++ rest) = .ok t rest := by
  have hspan : ((t ++ rest).take n).takeWhile f = t := by
    rw [List.take_append, List.take_of_length_le hlen, List.takeWhile_append_of_pos ht]
    have hstop : (rest.take (n - t.length)).takeWhile f = [] := by
      cases rest with
      | nil => simp
      | cons c u =>
          have hc := hrest c rfl
          cases n - t.length <;> simp [hc]
    rw [hstop, List.append_nil]
  rw [spanUpTo, hspan]
  cases t with
  | nil => exact absurd rfl hne
  | cons c u =>
      have hdrop : (c :: u ++ rest).drop (u.length + 1) = rest := List.drop_left
      exact congrArg (Outcome.ok (c :: u)) hdrop

theorem yields_spanUpTo (n : Nat) (f : Char → Bool) :
    (spanUpTo n f).Yields fun t => t ≠ [] ∧ (∀ c ∈ t, f c = true) ∧ t.length ≤ n := by
  intro s t rest h
  have hlen : ((s.take n).takeWhile f).length ≤ n :=
    (List.takeWhile_sublist f).length_le.trans (List.length_take_le n s)
  have hchars : ∀ c ∈ (s.take n).takeWhile f, f c = true := fun c hc => List.mem_takeWhile_imp hc
  rw [spanUpTo] at h
  cases hspan : (s.take n).takeWhile f with
  | nil => rw [hspan] at h; cases h
  | cons c u =>
      rw [hspan] at h hlen hchars
      cases h
      exact ⟨List.cons_ne_nil c u, hchars, hlen⟩

theorem append_of_spanUpTo {n : Nat} {f : Char → Bool} {a rest : Text}
    (h : spanUpTo n f s = .ok a rest) : s = a ++ rest := by
  have hprefix : (s.take n).takeWhile f <+: s :=
    (List.takeWhile_prefix f).trans (List.take_prefix n s)
  rw [spanUpTo] at h
  cases hspan : (s.take n).takeWhile f with
  | nil => rw [hspan] at h; cases h
  | cons c t =>
    rw [hspan] at h hprefix
    cases h
    obtain ⟨u, rfl⟩ := hprefix
    have hdrop : (c :: t ++ u).drop (t.length + 1) = u := List.drop_left
    rw [hdrop]

theorem letters_b_eq_ok_iff {t : Text} :
    letters "b".toList s = .ok t rest ↔ ∃ b, (b = 'b' ∨ b = 'B') ∧ t = [b] ∧ s = b :: rest := by
  rw [letters_eq_ok_iff (by decide)]
  constructor
  · rintro ⟨rfl, ht⟩
    obtain ⟨b, rfl, hb⟩ : ∃ b, t = [b] ∧ lowerChar b = ['b'] := List.map_eq_singleton_iff.1 ht
    refine ⟨b, ?_, rfl, rfl⟩
    have hascii := ascii_of_lowerChar hb (by decide) (by decide)
    rw [lowerChar_ascii hascii, List.cons.injEq] at hb
    exact forall_ascii (P := fun c => c.toLower = 'b' → c = 'b' ∨ c = 'B') (by decide) hascii hb.1
  · rintro ⟨b, rfl | rfl, rfl, rfl⟩
    · exact ⟨rfl, by decide⟩
    · exact ⟨rfl, by decide⟩

/-- **A number of bits** has up to 64 digits between two quotes behind its letter. -/
theorem bitLiteral_eq_ok_iff {digits : Text} :
    bitLiteral s = .ok digits rest ↔ ∃ b, (b = 'b' ∨ b = 'B') ∧
      s = b :: singleQuote :: (digits ++ singleQuote :: rest) ∧ IsBits digits := by
  constructor
  · intro h
    obtain ⟨t, m, hletter, h⟩ := bind_eq_ok_iff.1 h
    obtain ⟨c, m₁, hopen, h⟩ := bind_eq_ok_iff.1 h
    obtain ⟨ds, m₂, hdigits, h⟩ := bind_eq_ok_iff.1 h
    obtain ⟨d, m₃, hclose, hpure⟩ := bind_eq_ok_iff.1 h
    cases hpure
    obtain ⟨b, hb, rfl, rfl⟩ := letters_b_eq_ok_iff.1 hletter
    obtain ⟨rfl, -⟩ := char_eq_ok_iff.1 hopen
    obtain ⟨rfl, -⟩ := char_eq_ok_iff.1 hclose
    obtain ⟨hne, hbits, hlen⟩ := yields_spanUpTo 64 isBit _ _ _ hdigits
    exact ⟨b, hb, by rw [append_of_spanUpTo hdigits], hne, hbits, hlen⟩
  · rintro ⟨b, hb, rfl, hdigits⟩
    have hletter := letters_b_eq_ok_iff.2 ⟨b, hb, rfl,
      (rfl : b :: singleQuote :: (digits ++ singleQuote :: rest) = _)⟩
    have hspan := spanUpTo_append hdigits.ne_nil hdigits.bits hdigits.length_le
      (singleQuote :: rest) (by simp; rfl)
    rw [bitLiteral, bind_of_ok hletter, bind_of_ok (char_cons _ _), bind_of_ok hspan,
      bind_of_ok (char_cons _ _)]
    rfl

/-- Binary digits that are read have a value. -/
theorem yields_bitLiteral : bitLiteral.Yields fun ds => ∃ n, bits? ds = some n := by
  intro s digits rest h
  obtain ⟨-, -, -, hdigits⟩ := bitLiteral_eq_ok_iff.1 h
  exact ⟨_, hdigits.bits?_eq_some⟩

/-! ### What is read as a default -/

/-- A word that is read after a gap, where no other default stands, can be kept. -/
theorem isToken_of_span1 (hsolid : Solid s) (htime : currentTime.Refuses s)
    (h : span1 isTokenChar s = .ok raw rest) : IsToken raw := by
  obtain ⟨hne, hraw, hrest⟩ := span1_eq_ok_iff.1 h
  have hs : s = raw ++ rest := by
    rw [hraw, hrest, List.takeWhile_append_dropWhile]
  have hstop : ∀ c ∈ rest.head?, isTokenChar c = false := by
    intro c hc
    rw [hrest] at hc
    have hnot := List.head?_dropWhile_not isTokenChar s
    rw [Option.mem_def.1 hc] at hnot
    simpa using hnot
  refine ⟨hne, (yields_span1 isTokenChar s raw rest h).2, ?_, ?_⟩
  · intro hdashes
    exact hsolid.not_dashes (hdashes.trans (hs ▸ List.prefix_append raw rest))
  · intro front tail hfront hletters hends
    -- otherwise the word would have been read as the time of the change
    have hwords : WordEnds (tail ++ rest) := by
      cases tail with
      | nil =>
          intro c hc
          have hc := hstop c hc
          simp only [isTokenChar, Bool.or_eq_false_iff] at hc
          exact hc.1.1.1
      | cons d tail => exact hends
    have hkeyword : keyword "current_timestamp" s = .ok front (tail ++ rest) := by
      refine (keyword_eq_ok_iff (by decide)).2 ⟨⟨?_, hletters⟩, hwords⟩
      rw [hs, hfront, List.append_assoc]
    obtain ⟨o, last, hcall⟩ := (mild_gap0.bind fun _ => mild_emptyCall).optional_eq_ok (tail ++ rest)
    obtain ⟨why, hno⟩ := htime
    have hread : currentTime s = .ok () last :=
      orElse_of_ok ((bind_of_ok hkeyword _).trans (bind_of_ok hcall _)) _
    rw [hread] at hno
    cases hno

/-- **What is read as a default is well formed.** -/
theorem yields_defaultClause : defaultClause.Yields fun v => v.meaning.WellFormed := by
  intro s v rest h
  -- the value is read after a gap, so that no comment stands in front of it
  obtain ⟨w, s₁, -, h⟩ := bind_eq_ok_iff.1 h
  obtain ⟨u, mid, hgap, h⟩ := bind_eq_ok_iff.1 h
  have h := within_eq_ok_iff.1 h
  rw [defaultValue, firstOf_cons_cons, firstOf_cons_cons, firstOf_cons_cons, firstOf_singleton] at h
  rcases orElse_eq_ok h with h | ⟨htime, h⟩
  · obtain ⟨a, -, rfl⟩ := map_eq_ok_iff.1 h
    trivial
  rcases orElse_eq_ok h with h | ⟨-, h⟩
  · obtain ⟨a, -, rfl⟩ := map_eq_ok_iff.1 h
    trivial
  rcases orElse_eq_ok h with h | ⟨-, h⟩
  · obtain ⟨ds, hds, rfl⟩ := map_eq_ok_iff.1 h
    obtain ⟨n, hn⟩ := yields_bitLiteral mid ds rest hds
    rw [DefaultValue.meaning, hn]
    trivial
  · obtain ⟨raw, hraw, rfl⟩ := map_eq_ok_iff.1 h
    have hrefuses : currentTime.Refuses mid := by
      refine mild_currentTime.refuses fun a last hok => ?_
      obtain ⟨why, hno⟩ := htime
      rw [map_apply, hok] at hno
      cases hno
    exact isToken_of_span1 (solid_of_gap1 hgap) hrefuses hraw

/-! ### Defaults are read back -/

/-- The keywords for the time of the change. -/
def timeWords : List Text :=
  ["current_timestamp".toList, "now".toList]

theorem ledBy_currentTime : currentTime.LedBy timeWords :=
  ((ledBy_keyword "current_timestamp").bind _).orElse ((ledBy_keyword "now").bind _)

/-- What starts with another character does not start like the time of the change. -/
theorem not_readsAsTime_cons {c : Char} (hc : ∀ w ∈ timeWords, Text.agreesWith [c] w = false)
    (t : Text) : ¬ ReadsAsTime (c :: t) :=
  fun ⟨_, _, h⟩ => (ledBy_currentTime.refuses_cons hc t).ne_ok h

theorem isBits_binary (n : UInt64) : IsBits (Text.binary n.toNat) :=
  ⟨Text.binary_ne_nil n.toNat, Text.isBit_of_mem_binary n.toNat,
    Text.length_binary_le (k := 63) n.toNat_lt⟩

theorem bitLiteral_append (n : UInt64) (rest : Text) :
    bitLiteral (Generator.mysql.bitLiteral n ++ rest) = .ok (Text.binary n.toNat) rest := by
  have hshape : Generator.mysql.bitLiteral n ++ rest =
      'b' :: singleQuote :: (Text.binary n.toNat ++ singleQuote :: rest) := by
    simp [Generator.mysql]
  exact bitLiteral_eq_ok_iff.2 ⟨'b', .inl rfl, hshape, isBits_binary n⟩

theorem bits?_binary (n : UInt64) : bits? (Text.binary n.toNat) = some n := by
  rw [(isBits_binary n).bits?_eq_some, Text.bitValue_binary, UInt64.ofNat_toNat]

theorem emptyCall_append (rest : Text) : emptyCall ('(' :: ')' :: rest) = .ok () rest := by
  have hgap : gap0 (')' :: rest) = .ok () (')' :: rest) := gap0_cons (by decide) rest
  have hdigits : digits1.Refuses (')' :: rest) := refuses_span1 (by decide)
  rw [emptyCall, bind_of_ok (char_cons _ _), bind_of_ok hgap, bind_of_ok hdigits.optional,
    bind_of_ok hgap, bind_of_ok (char_cons _ _)]
  rfl

theorem currentTime_append (rest : Text) :
    currentTime ("CURRENT_TIMESTAMP()".toList ++ rest) = .ok () rest := by
  have hends : WordEnds ('(' :: ')' :: rest) := wordEnds_cons (by decide) _
  have hkeyword := keyword_append "current_timestamp" "CURRENT_TIMESTAMP".toList (by decide) hends
  have hcall : Rule.optional (gap0 *> emptyCall) ('(' :: ')' :: rest) = .ok (some ()) rest :=
    optional_of_ok ((bind_of_ok (gap0_cons (by decide) _) _).trans (emptyCall_append rest))
  exact orElse_of_ok ((bind_of_ok hkeyword _).trans (bind_of_ok hcall _)) _

theorem mysql_quoteString (v : Text) :
    Generator.mysql.quoteString v = singleQuote :: (Text.escape v ++ [singleQuote]) := rfl

theorem mild_bitLiteral : bitLiteral.Mild := by
  have hspan : (spanUpTo 64 isBit).Mild := by
    intro s why hs
    rw [spanUpTo] at hs
    split at hs <;> cases hs
  exact (mild_letters _).bind fun _ => (mild_satisfy _).bind fun _ => hspan.bind fun _ =>
    (mild_satisfy _).bind fun _ => mild_pure _

/-- A word is no number of bits, since no quote stands in it or behind it. -/
theorem refuses_bitLiteral (h : IsToken raw) (hrest : ∀ c ∈ rest.head?, isTokenChar c = false)
    (hquote : ∀ c ∈ rest.head?, c ≠ singleQuote) : bitLiteral.Refuses (raw ++ rest) := by
  refine mild_bitLiteral.refuses fun ds last hread => ?_
  obtain ⟨t, mid, hletter, hread⟩ := bind_eq_ok_iff.1 hread
  obtain ⟨q, after, hopen, -⟩ := bind_eq_ok_iff.1 hread
  obtain ⟨happend, hletters⟩ := (letters_eq_ok_iff (by decide)).1 hletter
  obtain ⟨hmid, -⟩ := char_eq_ok_iff.1 hopen
  have hchars := isWordChar_of_map_lowerChar (by decide) (by decide) hletters
  -- the quote after the letter would stand in the word or be the stop behind it
  obtain ⟨raw', hraw, hmid'⟩ := exists_of_append_eq happend
    (fun c hc => isTokenChar_of_isWordChar (hchars c hc)) hrest
  rw [hmid] at hmid'
  cases raw' with
  | nil =>
      rw [← List.nil_append rest, ← hmid'] at hquote
      exact hquote singleQuote rfl rfl
  | cons d raw' =>
      cases hmid'
      have hd := h.chars singleQuote (by simp [hraw])
      exact absurd hd (by decide)

/-- A word that does not run on is read back. -/
theorem token_append (h : IsToken raw) (hrest : ∀ c ∈ rest.head?, isTokenChar c = false)
    (hquote : ∀ c ∈ rest.head?, c ≠ singleQuote) (htime : ¬ ReadsAsTime (raw ++ rest)) :
    defaultValue (raw ++ rest) = .ok (.token raw) rest := by
  have hspan : span1 isTokenChar (raw ++ rest) = .ok raw rest :=
    span1_append h.ne_nil h.chars hrest
  have hrefuses : currentTime.Refuses (raw ++ rest) :=
    mild_currentTime.refuses fun u last hread => htime ⟨u, last, hread⟩
  obtain ⟨c, u, rfl⟩ : ∃ c u, raw = c :: u := List.exists_cons_of_ne_nil h.ne_nil
  have hname : Text.isNameQuote c = false :=
    Text.isNameQuote_of_any (by decide) (h.chars c List.mem_cons_self)
  have hstring : quotedString.Refuses (c :: u ++ rest) := refuses_quotedString hname _
  have hbits : bitLiteral.Refuses (c :: u ++ rest) := refuses_bitLiteral h hrest hquote
  rw [defaultValue, firstOf_cons_cons, (hrefuses.map _).orElse_apply, firstOf_cons_cons,
    (hstring.map _).orElse_apply, firstOf_cons_cons, (hbits.map _).orElse_apply,
    firstOf_singleton, map_apply, hspan]

/-- A string is read back in front of anything but another quote. -/
theorem defaultValue_text (value : Text) (hrest : ∀ c ∈ rest.head?, c ≠ singleQuote) :
    defaultValue (Generator.mysql.quoteString value ++ rest) =
      .ok (.quoted singleQuote (Text.escape value)) rest := by
  have hstring := quotedString_escape value hrest
  have hrefuses := ledBy_currentTime.refuses_cons (c := singleQuote) (by decide)
    (Text.escape value ++ [singleQuote] ++ rest)
  rw [mysql_quoteString, List.cons_append] at *
  rw [defaultValue, firstOf_cons_cons, (hrefuses.map _).orElse_apply, firstOf_cons_cons]
  exact orElse_of_ok (map_eq_ok_iff.2 ⟨_, hstring, rfl⟩) _

/-- A number of bits is read back whatever follows. -/
theorem defaultValue_bits (value : UInt64) (rest : Text) :
    defaultValue (Generator.mysql.bitLiteral value ++ rest) =
      .ok (.bits (Text.binary value.toNat)) rest := by
  have hbits := bitLiteral_append value rest
  have hrefuses := ledBy_currentTime.refuses_cons (c := 'b') (by decide)
    (singleQuote :: (Text.binary value.toNat ++ singleQuote :: rest))
  have hstring := refuses_quotedString (c := 'b') (by decide)
    (singleQuote :: (Text.binary value.toNat ++ singleQuote :: rest))
  have hshape : Generator.mysql.bitLiteral value ++ rest =
      'b' :: (singleQuote :: (Text.binary value.toNat ++ singleQuote :: rest)) := by
    simp [Generator.mysql]
  rw [hshape] at hbits ⊢
  rw [defaultValue, firstOf_cons_cons, (hrefuses.map _).orElse_apply, firstOf_cons_cons,
    (hstring.map _).orElse_apply, firstOf_cons_cons]
  exact orElse_of_ok (map_eq_ok_iff.2 ⟨_, hbits, rfl⟩) _

/-- So is the time of the change. -/
theorem defaultValue_currentTimestamp (rest : Text) :
    defaultValue (Generator.mysql.default .currentTimestamp ++ rest) =
      .ok .currentTimestamp rest := by
  have hread : currentTime (Generator.mysql.default .currentTimestamp ++ rest) = .ok () rest :=
    currentTime_append rest
  exact orElse_of_ok (map_eq_ok_iff.2 ⟨(), hread, rfl⟩) _

/-- **A default is read back** in front of any stop, unless it is a word that runs on into a call. -/
theorem defaultValue_append {v : SchemaDelta.DefaultValue} (hv : v.WellFormed) (hrest : Stops rest)
    (htime : ∀ raw, v = .unclassified raw → ¬ ReadsAsTime (raw ++ rest)) :
    ∃ w, defaultValue (Generator.mysql.default v ++ rest) = .ok w rest ∧ w.meaning = v := by
  have hquote := hrest.head_ne (q := singleQuote) (by decide)
  cases v with
  | text value =>
      exact ⟨_, defaultValue_text value hquote, by rw [DefaultValue.meaning, Text.unescape_escape]⟩
  | bits value =>
      exact ⟨_, defaultValue_bits value rest, by rw [DefaultValue.meaning, bits?_binary]⟩
  | currentTimestamp => exact ⟨_, defaultValue_currentTimestamp rest, rfl⟩
  | unclassified raw =>
      exact ⟨.token raw, token_append hv (hrest.head (by decide)) hquote (htime raw rfl), rfl⟩

/-- No gap stands in front of a word that is kept. -/
theorem IsToken.solid (h : IsToken raw) (hrest : ∀ c ∈ rest.head?, c ≠ '-') :
    Solid (raw ++ rest) := by
  obtain ⟨c, u, rfl⟩ : ∃ c u, raw = c :: u := List.exists_cons_of_ne_nil h.ne_nil
  by_cases hdash : c = '-'
  · subst hdash
    refine solid_dash fun d hd => ?_
    cases u with
    | nil => exact hrest d hd
    | cons e u =>
        cases hd
        rintro rfl
        exact h.not_dashes ⟨u, rfl⟩
  · refine solid_of_head ?_ (u ++ rest)
    have hc := h.chars c List.mem_cons_self
    simp only [isTokenChar, Bool.or_eq_true, beq_iff_eq] at hc
    rcases hc with ((hword | rfl) | rfl) | rfl
    · exact isGapStart_of_isWordChar hword
    · decide
    · decide
    · exact absurd rfl hdash

/-- No gap stands in front of a default. -/
theorem default_solid {v : SchemaDelta.DefaultValue} (hv : v.WellFormed) (hrest : Stops rest) :
    Solid (Generator.mysql.default v ++ rest) := by
  cases v with
  | text value => exact solid_of_head (c := singleQuote) (by decide) _
  | bits value => exact solid_of_head (c := 'b') (by decide) _
  | currentTimestamp => exact solid_of_head (c := 'C') (by decide) _
  | unclassified raw => exact IsToken.solid hv (hrest.head_ne (by decide))

/-- A word that runs on is read as the time of the change. -/
theorem defaultValue_of_readsAsTime (h : ReadsAsTime s) :
    ∃ rest, defaultValue s = .ok .currentTimestamp rest := by
  obtain ⟨u, rest, h⟩ := h
  exact ⟨rest, orElse_of_ok (map_eq_ok_iff.2 ⟨u, h, rfl⟩) _⟩

end Source

end SchemaDelta
