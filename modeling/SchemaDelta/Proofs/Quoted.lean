/-
**Names and strings in front of any text.**

A name that lacks the backtick is read back from between two of them, and a string is read back
from its escaped form, whatever its characters are.  Where the body of a string ends is decided by
the body and the one character after its quote, so that a string which was read in one place is
read in every other place where no quote follows.

Main results:

* `SchemaDelta.Lexeme.identifier_quotedWith`, `SchemaDelta.Lexeme.identifier_word` — names are read
  back;
* `SchemaDelta.Lexeme.exists_of_identifier`, `SchemaDelta.Lexeme.yields_identifier` — what is read
  as a name, which is never empty;
* `SchemaDelta.Text.splitAtQuote?_append` — **strings end where they ended before**;
* `SchemaDelta.Lexeme.quotedString_escape`, `SchemaDelta.Text.unescape_escape` — **every string
  survives escaping**.
-/

import SchemaDelta.Proofs.Word
import SchemaDelta.Script.Generator

set_option relaxedAutoImplicit false
set_option autoImplicit false

namespace SchemaDelta

/-! ### Names -/

namespace Text

variable {name : Text}

/-- No quote is one of the characters of a kind that has no quotes. -/
theorem isNameQuote_of_any {f : Char → Bool} (hf : [backtick, singleQuote, doubleQuote].any f = false)
    {c : Char} (h : f c = true) : isNameQuote c = false := by
  cases hq : isNameQuote c with
  | false => rfl
  | true =>
      have hc : c ∈ [backtick, singleQuote, doubleQuote] := by
        simpa [isNameQuote, or_assoc] using hq
      exact absurd h (List.any_eq_false.1 hf c hc)

theorem isNameQuote_of_isWordChar {c : Char} (h : isWordChar c = true) :
    isNameQuote c = false :=
  isNameQuote_of_any (by decide) h

theorem quotedWith_of_not_mem {q : Char} (h : q ∉ name) : quotedWith q name = q :: (name ++ [q]) := by
  rw [quotedWith, doubled_of_not_mem h, List.cons_append]

theorem unquote_between {q : Char} (hq : isNameQuote q = true) (hne : name ≠ []) :
    unquote (q :: (name ++ [q])) = name := by
  have hblank : isBlankChar q = false := by
    simp only [isNameQuote, Bool.or_eq_true, beq_iff_eq] at hq
    rcases hq with (rfl | rfl) | rfl <;> decide
  rw [unquote, trim_quoted hblank]
  cases name with
  | nil => exact absurd rfl hne
  | cons c t =>
      have hlast : (c :: t ++ [q]).getLast? = some q := List.getLast?_concat
      have hdrop : (c :: t ++ [q]).dropLast = c :: t := List.dropLast_concat
      rw [List.cons_append] at hlast hdrop
      simp [hq, hlast, hdrop]

/-- The quotes that are put around a name are taken off again. -/
theorem unquote_quotedWith (hne : name ≠ []) (hlacks : backtick ∉ name) :
    unquote (quotedWith backtick name) = name := by
  rw [quotedWith_of_not_mem hlacks, unquote_between (by decide) hne]

/-- Nothing is taken off a word. -/
theorem unquote_word (hword : ∀ c ∈ name, isWordChar c = true) : unquote name = name := by
  rw [unquote, trim_of_not_blank fun c hc => isBlankChar_of_isWordChar (hword c hc)]
  cases name with
  | nil => rfl
  | cons c t =>
      cases t with
      | nil => rfl
      | cons d t =>
          have hc : isNameQuote c = false := isNameQuote_of_isWordChar (hword c List.mem_cons_self)
          simp [hc]

end Text

namespace Lexeme

open Rule

variable {name s t rest : Text}

theorem namedBetween_append {q : Char} (hne : name ≠ []) (hlacks : q ∉ name) (rest : Text) :
    namedBetween q (q :: (name ++ [q]) ++ rest) = .ok () rest := by
  have hname : ∀ c ∈ name, (c != q) = true := by
    intro c hc
    rw [bne_iff_ne]
    rintro rfl
    exact hlacks hc
  have hspan : span1 (fun c => c != q) (name ++ q :: rest) = .ok name (q :: rest) :=
    span1_append hne hname (by simp)
  rw [namedBetween, List.cons_append, bind_of_ok (char_cons q _), List.append_assoc,
    List.singleton_append, bind_of_ok hspan, bind_of_ok (char_cons q rest)]
  rfl

/-- **A name without the backtick is read back** from between two of them. -/
theorem identifier_quotedWith (hne : name ≠ []) (hlacks : backtick ∉ name) (rest : Text) :
    identifier (Text.quotedWith backtick name ++ rest) = .ok (Text.quotedWith backtick name) rest := by
  rw [Text.quotedWith_of_not_mem hlacks]
  exact orElse_of_ok (matched_of_ok (orElse_of_ok (namedBetween_append hne hlacks rest) _)) _

theorem refuses_quotedIdentifier {c : Char} (h : Text.isNameQuote c = false) (t : Text) :
    quotedIdentifier.Refuses (c :: t) := by
  simp only [Text.isNameQuote, Bool.or_eq_false_iff, beq_eq_false_iff_ne] at h
  refine (refuses_firstOf fun p hp => ?_).matched
  simp only [List.mem_cons, List.not_mem_nil, or_false] at hp
  rcases hp with rfl | rfl | rfl
  · exact (refuses_char h.1.1).bind _
  · exact (refuses_char h.1.2).bind _
  · exact (refuses_char h.2).bind _

theorem isWordChar_of_isGapStart {c : Char} (h : isGapStart c = true) : isWordChar c = false := by
  simp only [isGapStart, isSpace, Bool.or_eq_true, beq_iff_eq] at h
  rcases h with ((((((rfl | rfl) | rfl) | rfl) | rfl) | rfl) | rfl) <;> decide

theorem isGapStart_of_isWordChar {c : Char} (h : isWordChar c = true) : isGapStart c = false := by
  cases hgap : isGapStart c with
  | false => rfl
  | true => rw [isWordChar_of_isGapStart hgap] at h; cases h

theorem isWordChar_of_isDigit {c : Char} (h : c.isDigit = true) : isWordChar c = true := by
  have hascii : c.toNat < 128 := by
    simp only [Char.isDigit, Bool.and_eq_true, decide_eq_true_eq] at h
    exact Nat.lt_of_le_of_lt h.2 (by decide)
  revert h
  exact forall_ascii (P := fun c => c.isDigit = true → isWordChar c = true) (by decide) hascii

theorem isGapStart_of_isDigit {c : Char} (h : c.isDigit = true) : isGapStart c = false :=
  isGapStart_of_isWordChar (isWordChar_of_isDigit h)

theorem identifier_word (hne : name ≠ []) (hword : ∀ c ∈ name, isWordChar c = true)
    (hrest : WordEnds rest) : identifier (name ++ rest) = .ok name rest := by
  have hquoted : quotedIdentifier.Refuses (name ++ rest) := by
    cases name with
    | nil => exact absurd rfl hne
    | cons c t =>
        exact refuses_quotedIdentifier (Text.isNameQuote_of_isWordChar (hword c List.mem_cons_self)) _
  rw [identifier, hquoted.orElse_apply, bareIdentifier, span1_append hne hword hrest]

/-- No name is read where neither a quote nor a word stands in front. -/
theorem refuses_identifier {c : Char} (hquote : Text.isNameQuote c = false)
    (hword : isWordChar c = false) (t : Text) : identifier.Refuses (c :: t) :=
  (refuses_quotedIdentifier hquote t).orElse (refuses_span1 hword)

/-! ### What is read as a name -/

/-- What a rule leaves is what stands after the text that it took. -/
theorem take_of_append {front : Text} (h : s = front ++ rest) :
    s.take (s.length - rest.length) = front := by
  simp [h]

theorem exists_of_namedBetween {q : Char} {u : Unit} (h : namedBetween q s = .ok u rest) :
    ∃ name, name ≠ [] ∧ q ∉ name ∧ s = q :: (name ++ [q]) ++ rest := by
  obtain ⟨c, mid, hopen, h⟩ := bind_eq_ok_iff.1 h
  obtain ⟨name, mid', hname, h⟩ := bind_eq_ok_iff.1 h
  obtain ⟨d, mid'', hclose, h⟩ := bind_eq_ok_iff.1 h
  cases h
  have hlacks : q ∉ name := fun hq => by
    simpa using (yields_span1 _ _ _ _ hname).2 q hq
  obtain ⟨rfl, rfl⟩ := char_eq_ok_iff.1 hopen
  obtain ⟨rfl, rfl⟩ := char_eq_ok_iff.1 hclose
  obtain ⟨hne, hname, hrest⟩ := span1_eq_ok_iff.1 hname
  refine ⟨name, hne, hlacks, ?_⟩
  rw [List.cons_append, List.append_assoc, List.singleton_append, hname, hrest,
    List.takeWhile_append_dropWhile]

/-- A name stands between two quotes that it does not contain, or it is a word. -/
theorem exists_of_identifier (h : identifier s = .ok t rest) :
    s = t ++ rest ∧
      ((∃ q name, Text.isNameQuote q = true ∧ name ≠ [] ∧ q ∉ name ∧ t = q :: (name ++ [q])) ∨
        t ≠ [] ∧ (∀ c ∈ t, isWordChar c = true) ∧ WordEnds rest) := by
  rcases orElse_eq_ok h with h | ⟨-, h⟩
  · obtain ⟨u, hfirst, ht⟩ := matched_eq_ok h
    obtain ⟨p, hp, hnamed⟩ := exists_of_firstOf_eq_ok hfirst
    obtain ⟨q, hq, rfl⟩ : ∃ q, Text.isNameQuote q = true ∧ p = namedBetween q := by
      simp only [List.mem_cons, List.not_mem_nil, or_false] at hp
      rcases hp with rfl | rfl | rfl
      · exact ⟨backtick, rfl, rfl⟩
      · exact ⟨singleQuote, rfl, rfl⟩
      · exact ⟨doubleQuote, rfl, rfl⟩
    obtain ⟨name, hne, hlacks, hs⟩ := exists_of_namedBetween hnamed
    rw [take_of_append hs] at ht
    exact ⟨ht ▸ hs, .inl ⟨q, name, hq, hne, hlacks, ht⟩⟩
  · obtain ⟨hne, hword⟩ := yields_span1 isWordChar s t rest h
    obtain ⟨-, ht, hrest⟩ := span1_eq_ok_iff.1 h
    refine ⟨?_, .inr ⟨hne, hword, fun c hc => ?_⟩⟩
    · rw [ht, hrest, List.takeWhile_append_dropWhile]
    · have hnot := List.head?_dropWhile_not isWordChar s
      rw [← hrest, Option.mem_def.1 hc] at hnot
      simpa using hnot

/-- **No name that is read is empty.** -/
theorem yields_identifier : identifier.Yields fun t => Text.unquote t ≠ [] := by
  intro s t rest h
  obtain ⟨-, ⟨q, name, hq, hne, -, rfl⟩ | ⟨hne, hword, -⟩⟩ := exists_of_identifier h
  · rw [Text.unquote_between hq hne]
    exact hne
  · rw [Text.unquote_word hword]
    exact hne

end Lexeme

/-! ### Strings -/

namespace Text

variable {q : Char} {t body rest rest' : Text}

theorem splitAtQuote?_cons_of_ne {c : Char} (hc : c ≠ '\\') (hq : c ≠ q) (hne : t ≠ []) :
    splitAtQuote? q (c :: t) = (splitAtQuote? q t).map fun p => (c :: p.1, p.2) := by
  cases t with
  | nil => exact absurd rfl hne
  | cons d t => rw [splitAtQuote?, if_neg hc, if_neg hq]

theorem splitAtQuote?_close (hq : q ≠ '\\') (hrest : ∀ c ∈ rest.head?, c ≠ q) :
    splitAtQuote? q (q :: rest) = some ([], rest) := by
  cases rest with
  | nil => rw [splitAtQuote?, if_neg hq, if_pos rfl]
  | cons d t =>
      have hd : d ≠ q := hrest d rfl
      rw [splitAtQuote?, if_neg hq, if_pos rfl, if_neg hd]

/-- Without backslashes and quotes the body of a string ends at the first quote. -/
theorem splitAtQuote?_of_lacks (hq : q ≠ '\\') (hslash : '\\' ∉ body) (hbody : q ∉ body) :
    splitAtQuote? q (body ++ [q]) = some (body, []) := by
  induction body with
  | nil => exact splitAtQuote?_close hq nofun
  | cons c body ih =>
      rw [List.mem_cons, not_or] at hslash hbody
      rw [List.cons_append, splitAtQuote?_cons_of_ne (Ne.symm hslash.1) (Ne.symm hbody.1) (by simp),
        ih hslash.2 hbody.2]
      rfl

/-- **Where the body of a string ends** does not depend on what follows it, if no quote does. -/
theorem splitAtQuote?_append (h : splitAtQuote? q t = some (body, rest))
    (hrest : ∀ c ∈ rest'.head?, c ≠ q) :
    splitAtQuote? q (body ++ q :: rest') = some (body, rest') := by
  -- only the last step of the recursion sees what follows the closing quote
  fun_induction splitAtQuote? q t generalizing body rest with
  | case1 => cases h
  | case2 => cases h
  | case3 hq =>
      cases h
      exact splitAtQuote?_close hq hrest
  | case4 => cases h
  | case5 d t ih =>
      obtain ⟨p, hp, heq⟩ := Option.map_eq_some_iff.1 h
      cases heq
      rw [List.cons_append, List.cons_append, splitAtQuote?, if_pos rfl, ih hp]
      rfl
  | case6 t hq ih =>
      obtain ⟨p, hp, heq⟩ := Option.map_eq_some_iff.1 h
      cases heq
      rw [List.cons_append, List.cons_append, splitAtQuote?, if_neg hq, if_pos rfl, if_pos rfl,
        ih hp]
      rfl
  | case7 d t _ hq =>
      cases h
      exact splitAtQuote?_close hq hrest
  | case8 c d t hc hq ih =>
      obtain ⟨p, hp, heq⟩ := Option.map_eq_some_iff.1 h
      cases heq
      rw [List.cons_append, splitAtQuote?_cons_of_ne hc hq (by simp), ih hp]
      rfl

/-- The body that a string is written with: every backslash and every quote is doubled. -/
def escape (v : Text) : Text :=
  doubled singleQuote (doubled '\\' v)

theorem escape_cons (c : Char) (v : Text) :
    escape (c :: v) = (if c = '\\' then ['\\', '\\'] else if c = singleQuote then
      [singleQuote, singleQuote] else [c]) ++ escape v := by
  rw [escape, doubled_cons, doubled_append, escape]
  by_cases hslash : c = '\\'
  · subst hslash
    rfl
  · rw [if_neg hslash, if_neg hslash]
    simp

/-- The escaped body ends at the quote behind it. -/
theorem splitAtQuote?_escape (v : Text) (hrest : ∀ c ∈ rest.head?, c ≠ singleQuote) :
    splitAtQuote? singleQuote (escape v ++ singleQuote :: rest) = some (escape v, rest) := by
  induction v with
  | nil => exact splitAtQuote?_close (by decide) hrest
  | cons c v ih =>
      rw [escape_cons]
      by_cases hslash : c = '\\'
      · rw [if_pos hslash, List.append_assoc, List.cons_append, List.singleton_append,
          splitAtQuote?, if_pos rfl, ih]
        rfl
      · rw [if_neg hslash]
        by_cases hquote : c = singleQuote
        · rw [if_pos hquote, List.append_assoc, List.cons_append, List.singleton_append,
            splitAtQuote?, if_neg (by decide), if_pos rfl, if_pos rfl, ih]
          rfl
        · rw [if_neg hquote, List.append_assoc, List.singleton_append,
            splitAtQuote?_cons_of_ne hslash hquote (by simp), ih]
          rfl

/-- **Every text is what its escaped form stands for.** -/
theorem unescape_escape (v : Text) : unescape singleQuote (escape v) = v := by
  induction v with
  | nil => rfl
  | cons c v ih =>
      rw [escape_cons]
      by_cases hslash : c = '\\'
      · subst hslash
        rw [if_pos rfl, List.cons_append, List.singleton_append, unescape, if_pos rfl, ih]
        rfl
      · rw [if_neg hslash]
        by_cases hquote : c = singleQuote
        · subst hquote
          rw [if_pos rfl, List.cons_append, List.singleton_append, unescape,
            if_neg (by decide), if_pos ⟨rfl, rfl⟩, ih]
        · rw [if_neg hquote, List.singleton_append]
          cases he : escape v with
          | nil =>
              rw [he] at ih
              rw [unescape, ← ih]
              rfl
          | cons d t =>
              rw [he] at ih
              rw [unescape, if_neg hslash, if_neg fun h => hquote h.1, ih]

end Text

namespace Lexeme

open Rule

variable {q : Char} {s body rest : Text}

theorem quotedBody_append (h : Text.splitAtQuote? q (body ++ q :: rest) = some (body, rest)) :
    quotedBody q (q :: (body ++ [q]) ++ rest) = .ok body rest := by
  rw [List.cons_append, List.append_assoc, List.singleton_append, quotedBody, if_pos rfl, h]

theorem refuses_quotedBody {c : Char} (h : c ≠ q) (t : Text) : (quotedBody q).Refuses (c :: t) :=
  ⟨⟨c :: t, []⟩, if_neg h⟩

theorem mild_quotedBody (q : Char) : (quotedBody q).Mild := by
  intro s why h
  unfold quotedBody at h
  repeat' split at h
  all_goals cases h

theorem quotedString_append (hq : q = singleQuote ∨ q = doubleQuote)
    (h : Text.splitAtQuote? q (body ++ q :: rest) = some (body, rest)) :
    quotedString (q :: (body ++ [q]) ++ rest) = .ok (q, body) rest := by
  rcases hq with rfl | rfl
  · exact orElse_of_ok (by rw [map_apply, quotedBody_append h]) _
  · have hsingle := (refuses_quotedBody (q := singleQuote) (c := doubleQuote) (by decide)
      (body ++ [doubleQuote] ++ rest)).map (Prod.mk singleQuote)
    rw [quotedString, List.cons_append, hsingle.orElse_apply, ← List.cons_append, map_apply,
      quotedBody_append h]

/-- **Every string is read back from its escaped form.** -/
theorem quotedString_escape (v : Text) (hrest : ∀ c ∈ rest.head?, c ≠ singleQuote) :
    quotedString (singleQuote :: (Text.escape v ++ [singleQuote]) ++ rest) =
      .ok (singleQuote, Text.escape v) rest :=
  quotedString_append (.inl rfl) (Text.splitAtQuote?_escape v hrest)

theorem refuses_quotedString {c : Char} (h : Text.isNameQuote c = false) (t : Text) :
    quotedString.Refuses (c :: t) := by
  simp only [Text.isNameQuote, Bool.or_eq_false_iff, beq_eq_false_iff_ne] at h
  exact ((refuses_quotedBody h.1.2 t).map _).orElse ((refuses_quotedBody h.2 t).map _)

theorem quotedBody_eq_ok (h : quotedBody q s = .ok body rest) :
    s = q :: (body ++ [q]) ++ rest ∧
      Text.splitAtQuote? q (body ++ q :: rest) = some (body, rest) := by
  cases s with
  | nil => cases h
  | cons c t =>
      rw [quotedBody] at h
      split at h
      · next hc =>
          subst hc
          cases hsplit : Text.splitAtQuote? c t with
          | none => rw [hsplit] at h; cases h
          | some parts =>
              obtain ⟨front, back⟩ := parts
              rw [hsplit] at h
              cases h
              have ht := Text.append_of_splitAtQuote? hsplit
              refine ⟨by simp [← ht], ?_⟩
              rw [ht, hsplit]
      · cases h

/-- What is read as a string stands between two quotes, and ends at the second one. -/
theorem quotedString_eq_ok (h : quotedString s = .ok (q, body) rest) :
    (q = singleQuote ∨ q = doubleQuote) ∧ s = q :: (body ++ [q]) ++ rest ∧
      Text.splitAtQuote? q (body ++ q :: rest) = some (body, rest) := by
  rcases orElse_eq_ok h with h | ⟨-, h⟩
  · obtain ⟨body', h, heq⟩ := map_eq_ok_iff.1 h
    cases heq
    exact ⟨.inl rfl, quotedBody_eq_ok h⟩
  · obtain ⟨body', h, heq⟩ := map_eq_ok_iff.1 h
    cases heq
    exact ⟨.inr rfl, quotedBody_eq_ok h⟩

end Lexeme

end SchemaDelta
