/-
**Exchanging the text behind words.**

A keyword is read or refused by the first word in front of it.  Where that word ends inside of the
front, the text behind does not matter.  The same goes for a run of characters that ends there.

Main definitions:

* `SchemaDelta.kelvinSign` — the character outside of ASCII that is compared as a letter of a
  keyword;
* `SchemaDelta.Lexeme.Breaks` — the first word ends inside of a text;
* `SchemaDelta.Lexeme.IsWord` — a keyword that consists of letters;
* `SchemaDelta.Rule.Heads` — what a rule reads starts with one of the given keywords.

Main results:

* `SchemaDelta.Lexeme.exists_of_wholeWord` — **a keyword is read whatever stands behind**, where the
  first word ends inside of the front;
* `SchemaDelta.Exchange.keeps_keyword`, `SchemaDelta.Exchange.keeps_span1` — keywords and runs of
  characters survive the exchange;
* `SchemaDelta.Exchange.keeps_firstOf_heads` — **a choice between different keywords survives it**.
-/

import SchemaDelta.Proofs.Exchange.Basic

set_option relaxedAutoImplicit false
set_option autoImplicit false

namespace SchemaDelta

/-! ### The letters of keywords -/

/-- The sign for the kelvin, whose lower case is a k. -/
def kelvinSign : Char :=
  Char.ofNat 0x212A

/-- The sign for the kelvin is the one character outside of ASCII whose lower case is a k. -/
theorem kelvin_of_lowerChar {c : Char} (hc : ¬ c.toNat < 128) (h : lowerChar c = ['k']) :
    c = kelvinSign := by
  have hrun : ∀ r ∈ lowerRuns, r.image ≤ 0x6B → r.first = 0x212A ∧ r.last = 0x212A := by
    decide +kernel
  have hlow : ∀ r ∈ lowerRuns, r.image + (r.last - r.first) < 0x110000 ∧
      (r.image + (r.last - r.first) < 0xD800 ∨ 0xE000 ≤ r.image) := by
    decide +kernel
  rw [lowerChar, if_neg hc] at h
  split at h
  · cases h
  · cases himage : caseImage? lowerRuns c.toNat with
    | none =>
      rw [himage] at h
      cases h
      exact absurd (by decide) hc
    | some n =>
      obtain ⟨r, hr, hfirst, hlast, rfl⟩ := exists_of_caseImage? himage
      rw [himage] at h
      have hvalid : (r.image + (c.toNat - r.first)).isValidChar := by
        obtain ⟨hlt, hgap⟩ := hlow r hr
        rcases hgap with hgap | hgap
        · left
          omega
        · right
          omega
      have hk : r.image + (c.toNat - r.first) = 0x6B := by
        rw [← toNat_ofNat_of_valid hvalid, (List.cons.inj h).1]
        rfl
      obtain ⟨hone, hsame⟩ := hrun r hr (by omega)
      rw [← Char.ofNat_toNat c, show c.toNat = 0x212A by omega, kelvinSign]

/-- The letters that keywords are spelled with, among them the underscore. -/
def isWordLetter (d : Char) : Bool :=
  decide (d.toNat < 128) && isWordChar d && lowerChar d == [d]

/-- What agrees with a letter of a keyword is a word character. -/
theorem isWordChar_of_lowerChar {c d : Char} (hd : isWordLetter d = true)
    (h : lowerChar c = lowerChar d) : isWordChar c = true := by
  simp only [isWordLetter, Bool.and_eq_true, decide_eq_true_eq, beq_iff_eq] at hd
  obtain ⟨⟨hascii, hword⟩, hlower⟩ := hd
  rw [hlower] at h
  by_cases hc : c.toNat < 128
  · have hsame : c.toLower = d := by
      rw [lowerChar_ascii hc] at h
      exact (List.cons.inj h).1
    rw [← hsame] at hword
    revert hword
    exact forall_ascii (P := fun c => isWordChar c.toLower = true → isWordChar c = true)
      (by decide) hc
  · by_cases hk : d = 'k'
    · subst hk
      rw [kelvin_of_lowerChar hc h]
      decide +kernel
    · exact absurd (ascii_of_lowerChar h hascii hk) hc

namespace Text

variable {s t u word : Text} {c : Char}

/-- The characters of a text agree with those of a word for as long as the word lasts. -/
theorem exists_of_agreesWith (h : (t ++ c :: u).agreesWith word = true)
    (hlt : t.length < word.length) : ∃ d ∈ word, lowerChar c = lowerChar d := by
  induction t generalizing word with
  | nil =>
    cases word with
    | nil => cases hlt
    | cons d word =>
      rw [List.nil_append, agreesWith, Bool.and_eq_true, beq_iff_eq] at h
      exact ⟨d, List.mem_cons_self, h.1⟩
  | cons e t ih =>
    cases word with
    | nil => cases hlt
    | cons d word =>
      rw [List.cons_append, agreesWith, Bool.and_eq_true] at h
      obtain ⟨d', hd', heq⟩ := ih h.2 (Nat.lt_of_succ_lt_succ hlt)
      exact ⟨d', List.mem_cons_of_mem d hd', heq⟩

theorem length_le_byteLength (t : Text) : t.length ≤ t.byteLength := by
  induction t with
  | nil => exact Nat.le_refl _
  | cons c t ih =>
    have hpos := Char.utf8Size_pos c
    rw [List.length_cons, byteLength_cons]
    omega

theorem byteLength_of_splitAtByte? {n : Nat} (h : splitAtByte? n s = some (t, u)) :
    t.byteLength = n := by
  induction s generalizing n t with
  | nil =>
    cases n with
    | zero => cases h; rfl
    | succ n => cases h
  | cons c s ih =>
    cases n with
    | zero => cases h; rfl
    | succ n =>
      rw [splitAtByte?] at h
      split at h
      · next hle =>
        obtain ⟨⟨t', u'⟩, htail, heq⟩ := Option.map_eq_some_iff.1 h
        cases heq
        rw [byteLength_cons, ih htail]
        omega
      · cases h

/-- The characters of ASCII have one byte each. -/
theorem byteLength_of_ascii (h : ∀ d ∈ word, d.toNat < 128) : word.byteLength = word.length := by
  induction word with
  | nil => rfl
  | cons d word ih =>
    rw [byteLength_cons, List.length_cons, ih fun e he => h e (List.mem_cons_of_mem d he),
      Lexeme.utf8Size_ascii (h d List.mem_cons_self), Nat.add_comm]

theorem byteLength_of_letters (h : ∀ d ∈ word, isWordLetter d = true) :
    word.byteLength = word.length := by
  refine byteLength_of_ascii fun d hd => ?_
  have hd := h d hd
  simp only [isWordLetter, Bool.and_eq_true, decide_eq_true_eq] at hd
  exact hd.1.1

/-- Where two words differ, a text that spells the one does not agree with the other. -/
theorem Spells.agreesWith {word' : Text} (h : t.Spells word) (hne : word.agreesWith word' = false) :
    t.agreesWith word' = false := by
  obtain ⟨hagrees, hlen, -⟩ := h
  induction t generalizing word word' with
  | nil =>
    obtain rfl : word = [] := List.length_eq_zero_iff.1 hlen.symm
    exact hne
  | cons c t ih =>
    cases word with
    | nil => cases hlen
    | cons d word =>
      cases word' with
      | nil => cases hne
      | cons e word' =>
        rw [Text.agreesWith, Bool.and_eq_true, beq_iff_eq] at hagrees
        rw [Text.agreesWith] at hne ⊢
        rw [hagrees.1]
        cases hde : lowerChar d == lowerChar e with
        | false => rfl
        | true =>
          rw [hde, Bool.true_and] at hne
          rw [Bool.true_and]
          exact ih hne hagrees.2 (Nat.succ.inj hlen)

end Text

namespace Lexeme

open Rule

variable {s t u v m rest y : Text}

/-! ### Where words end -/

/-- The first word in front ends inside of the text. -/
def Breaks (s : Text) : Prop :=
  ∃ c ∈ s, isWordChar c = false

instance : DecidablePred Breaks := fun s =>
  inferInstanceAs (Decidable (∃ c ∈ s, isWordChar c = false))

theorem breaks_cons {c : Char} (h : isWordChar c = false) (t : Text) : Breaks (c :: t) :=
  ⟨c, List.mem_cons_self, h⟩

theorem Breaks.ne_nil (h : Breaks s) : s ≠ [] := by
  obtain ⟨c, hmem, -⟩ := h
  exact List.ne_nil_of_mem hmem

theorem Breaks.of_suffix (h : Breaks s) (hs : s <:+ t) : Breaks t := by
  obtain ⟨c, hmem, hc⟩ := h
  exact ⟨c, hs.subset hmem, hc⟩

/-- A keyword, one that is not empty and has letters only. -/
def IsWord (word : Text) : Prop :=
  word ≠ [] ∧ ∀ d ∈ word, isWordLetter d = true

instance (word : Text) : Decidable (IsWord word) :=
  inferInstanceAs (Decidable (_ ∧ _))

/-! ### Keywords -/

theorem wordEnds_of_absent {w : Unit} (h : absent (satisfy isWordChar) s = .ok w rest) :
    rest = s ∧ WordEnds s := by
  cases s with
  | nil =>
    cases h
    exact ⟨rfl, fun c hc => by cases hc⟩
  | cons c t =>
    cases hc : isWordChar c with
    | true =>
      rw [absent_of_ok (satisfy_eq_ok_iff.2 ⟨rfl, hc⟩)] at h
      cases h
    | false =>
      rw [(refuses_satisfy hc).absent] at h
      cases h
      exact ⟨rfl, wordEnds_cons hc t⟩

variable {word : Text}

theorem exists_of_letters (h : letters word s = .ok t rest) :
    s = t ++ rest ∧ s.agreesWith word = true ∧ t.byteLength = word.byteLength := by
  rw [letters] at h
  split at h
  · next hagrees =>
    cases hsplit : s.splitAtByte? word.byteLength with
    | none => rw [hsplit] at h; cases h
    | some parts =>
      rw [hsplit] at h
      cases h
      exact ⟨(Text.append_of_splitAtByte? hsplit).symm, hagrees,
        Text.byteLength_of_splitAtByte? hsplit⟩
  · cases h

/-- What is read as a keyword consists of word characters, and no other one follows. -/
theorem wordChars_of_wholeWord (hword : IsWord word) (h : wholeWord word s = .ok t rest) :
    s = t ++ rest ∧ t ≠ [] ∧ (∀ c ∈ t, isWordChar c = true) ∧ WordEnds rest := by
  obtain ⟨t', mid, hletters, h⟩ := bind_eq_ok_iff.1 h
  obtain ⟨w, mid', habsent, hpure⟩ := bind_eq_ok_iff.1 h
  cases hpure
  obtain ⟨rfl, hends⟩ := wordEnds_of_absent habsent
  obtain ⟨rfl, hagrees, hbytes⟩ := exists_of_letters hletters
  have hsize := Text.byteLength_of_letters hword.2
  refine ⟨rfl, ?_, fun c hc => ?_, hends⟩
  · rintro rfl
    rw [Text.byteLength_nil, hsize] at hbytes
    exact hword.1 (List.length_eq_zero_iff.1 hbytes.symm)
  · -- there are no more characters than bytes, so that each one is compared with a letter
    obtain ⟨u, v, rfl⟩ := List.append_of_mem hc
    have hlen := Text.length_le_byteLength (u ++ c :: v)
    rw [hbytes, hsize, List.length_append, List.length_cons] at hlen
    rw [List.append_assoc, List.cons_append] at hagrees
    obtain ⟨d, hd, heq⟩ := Text.exists_of_agreesWith hagrees (by omega)
    exact isWordChar_of_lowerChar (hword.2 d hd) heq

/-- In front of some text, what is read as a keyword has its letters one for one. -/
theorem spells_of_wholeWord (hword : IsWord word) (h : wholeWord word s = .ok t rest)
    (hne : rest ≠ []) : t.Spells word := by
  obtain ⟨-, -, -, hends⟩ := wordChars_of_wholeWord hword h
  obtain ⟨t', mid, hletters, h⟩ := bind_eq_ok_iff.1 h
  obtain ⟨w, mid', habsent, hpure⟩ := bind_eq_ok_iff.1 h
  cases hpure
  obtain ⟨rfl, -⟩ := wordEnds_of_absent habsent
  obtain ⟨rfl, hagrees, hbytes⟩ := exists_of_letters hletters
  have hsize := Text.byteLength_of_letters hword.2
  have hle := Text.length_le_byteLength t
  have hlen : t.length = word.length := by
    refine Nat.le_antisymm (by omega) (Nat.le_of_not_lt fun hlt => ?_)
    -- otherwise the next character is compared with a letter as well
    cases rest with
    | nil => exact hne rfl
    | cons c u =>
      obtain ⟨d, hd, heq⟩ := Text.exists_of_agreesWith hagrees hlt
      have hc := hends c rfl
      rw [isWordChar_of_lowerChar (hword.2 d hd) heq] at hc
      cases hc
  exact ⟨by rwa [Text.agreesWith_append_right hlen] at hagrees, hlen, hbytes⟩

/-- **A keyword is read whatever stands behind**, where the first word ends inside of the text. -/
theorem exists_of_wholeWord (hword : IsWord word) (hs : Breaks s)
    (h : wholeWord word (s ++ y) = .ok t rest) :
    ∃ v, s = t ++ v ∧ rest = v ++ y ∧ v ≠ [] ∧ WordEnds v ∧ t.Spells word := by
  obtain ⟨heq, -, hchars, hends⟩ := wordChars_of_wholeWord hword h
  obtain ⟨c, hmem, hc⟩ := hs
  have hnot : c ∉ t := fun hct => by rw [hchars c hct] at hc; cases hc
  rcases List.append_eq_append_iff.1 heq with ⟨v, rfl, rfl⟩ | ⟨v, rfl, rfl⟩
  · exact absurd (List.mem_append_left v hmem) hnot
  · have hv : v ≠ [] := by
      rintro rfl
      rw [List.append_nil] at hmem
      exact hnot hmem
    exact ⟨v, rfl, rfl, hv, hends.of_append,
      spells_of_wholeWord hword h fun hnil => hv (List.append_eq_nil_iff.1 hnil).1⟩

/-- The first word ends where a keyword does. -/
theorem WordEnds.append (h : WordEnds v) (hv : v ≠ []) (z : Text) : WordEnds (v ++ z) := by
  cases v with
  | nil => exact absurd rfl hv
  | cons c v => exact h

theorem WordEnds.breaks (h : WordEnds v) (hv : v ≠ []) : Breaks v := by
  cases v with
  | nil => exact absurd rfl hv
  | cons c v => exact breaks_cons (h c rfl) v

theorem mild_wholeWord (word : Text) : (wholeWord word).Mild :=
  (mild_letters _).bind fun _ => (mild_satisfy _).absent.bind fun _ => mild_pure _

instance (word : Text) : Tails (letters word) where
  suffix s t rest h := by
    obtain ⟨rfl, -⟩ := exists_of_letters h
    exact List.suffix_append t rest

instance (word : Text) : Tails (wholeWord word) := by
  unfold wholeWord
  infer_instance

theorem starts_wholeWord (hword : IsWord word) :
    (wholeWord word).Starts fun c => isWordChar c = true := by
  intro s t rest h
  obtain ⟨rfl, hne, hchars, hends⟩ := wordChars_of_wholeWord hword h
  have hdrop : (t ++ rest).dropWhile isWordChar = rest := by
    rw [List.dropWhile_append_of_pos hchars]
    cases rest with
    | nil => rfl
    | cons c u => exact List.dropWhile_cons_of_neg (by simp [hends c rfl])
  cases t with
  | nil => exact absurd rfl hne
  | cons c u =>
    exact ⟨c, u ++ rest, rfl, hchars c List.mem_cons_self, List.suffix_append u rest,
      hdrop.symm ▸ List.suffix_rfl⟩

end Lexeme

namespace Rule

open Lexeme

variable {α β : Type} {p q : Rule α} {vs ws : List Text}

/-- What a rule reads starts with one of the given keywords. -/
def Heads (p : Rule α) (vs : List Text) : Prop :=
  ∀ s a rest, p s = .ok a rest →
    ∃ v ∈ vs, IsWord v ∧ ∃ t mid, wholeWord v s = .ok t mid ∧ rest <:+ mid

theorem Heads.bind {f : α → Rule β} [∀ a, Tails (f a)] (h : p.Heads vs) : (p >>= f).Heads vs := by
  intro s b rest h'
  obtain ⟨a, mid, ha, hb⟩ := bind_eq_ok_iff.1 h'
  obtain ⟨v, hv, hword, t, mid', ht, hmid⟩ := h s a mid ha
  exact ⟨v, hv, hword, t, mid', ht, (Tails.suffix mid b rest hb).trans hmid⟩

theorem Heads.map (h : p.Heads vs) (f : α → β) : (f <$> p).Heads vs := by
  intro s b rest hb
  obtain ⟨a, ha, -⟩ := map_eq_ok_iff.1 hb
  exact h s a rest ha

theorem Heads.matched (h : p.Heads vs) : p.matched.Heads vs := by
  intro s t rest ht
  obtain ⟨a, ha, -⟩ := matched_eq_ok ht
  exact h s a rest ha

theorem Heads.orElse (hp : p.Heads vs) (hq : q.Heads ws) : (p <|> q).Heads (vs ++ ws) := by
  intro s a rest h
  rcases orElse_eq_ok h with h | ⟨-, h⟩
  · obtain ⟨v, hv, hread⟩ := hp s a rest h
    exact ⟨v, List.mem_append_left ws hv, hread⟩
  · obtain ⟨v, hv, hread⟩ := hq s a rest h
    exact ⟨v, List.mem_append_right vs hv, hread⟩

theorem Heads.optional_bind {f : Option α → Rule β} [∀ o, Tails (f o)] (hp : p.Heads vs)
    (hf : (f none).Heads ws) : (p.optional >>= f).Heads (vs ++ ws) := by
  intro s b rest h
  obtain ⟨o, mid, ho, hb⟩ := bind_eq_ok_iff.1 h
  rcases optional_eq_ok ho with ⟨a, rfl, ha⟩ | ⟨-, rfl, rfl⟩
  · obtain ⟨v, hv, hread⟩ :=
      hp.bind (f := fun a => f (some a)) s b rest (bind_eq_ok_iff.2 ⟨a, mid, ha, hb⟩)
    exact ⟨v, List.mem_append_left ws hv, hread⟩
  · obtain ⟨v, hv, hread⟩ := hf mid b rest hb
    exact ⟨v, List.mem_append_right vs hv, hread⟩

theorem Heads.discard (h : p.Heads vs) : Heads (Functor.discard p) vs := by
  intro s u rest hu
  obtain ⟨a, ha⟩ := discard_eq_ok hu
  exact h s a rest ha

theorem exists_heads_of_mem {ps : List (Rule α)} {vss : List (List Text)}
    (h : List.Forall₂ Heads ps vss) (hp : p ∈ ps) : ∃ vs ∈ vss, p.Heads vs := by
  induction h with
  | nil => cases hp
  | cons hhead _ ih =>
    rcases List.mem_cons.1 hp with rfl | hp
    · exact ⟨_, List.mem_cons_self, hhead⟩
    · obtain ⟨vs, hvs, hheads⟩ := ih hp
      exact ⟨vs, List.mem_cons_of_mem _ hvs, hheads⟩

theorem heads_firstOf {ps : List (Rule α)} {vss : List (List Text)}
    (h : List.Forall₂ Heads ps vss) : (firstOf ps).Heads vss.flatten := by
  intro s a rest ha
  obtain ⟨p, hp, hread⟩ := exists_of_firstOf_eq_ok ha
  obtain ⟨vs, hvs, hheads⟩ := exists_heads_of_mem h hp
  obtain ⟨v, hv, hword⟩ := hheads s a rest hread
  exact ⟨v, List.mem_flatten.2 ⟨vs, hvs, hv⟩, hword⟩

theorem heads_wholeWord {word : Text} (hword : IsWord word) : (wholeWord word).Heads [word] :=
  fun _ t rest h => ⟨word, List.mem_cons_self, hword, t, rest, h, List.suffix_rfl⟩

theorem heads_keyword {word : String} (hword : IsWord word.toList) :
    (keyword word).Heads [word.toList] :=
  heads_wholeWord hword

/-- A rule that starts with keywords starts with word characters. -/
theorem Heads.starts (h : p.Heads vs) : p.Starts fun c => isWordChar c = true := by
  intro s a rest ha
  obtain ⟨v, -, hword, t, mid, ht, hrest⟩ := h s a rest ha
  obtain ⟨c, u, rfl, hc, htail, hdrop⟩ := starts_wholeWord hword s t mid ht
  exact ⟨c, u, rfl, hc, hrest.trans htail, hrest.trans hdrop⟩

end Rule

/-! ### Words in front of another text -/

namespace Exchange

open Rule Lexeme

variable {x : Exchange} {α β : Type} {p q : Rule α} {L : Text → Prop} {s r m t : Text}
  {vs ws : List Text}

/-- What reads the word in front in whole and leaves something has the word end in it. -/
theorem Starts.breaks {C : Char → Prop} {a : α} (h : p.Starts C) (ha : x.Reads p s a r)
    (hr : r ≠ []) : ∃ c t, s = c :: t ∧ C c ∧ Breaks (c :: t) := by
  obtain ⟨c, t, rfl, hc, -⟩ := Starts.ne_nil h ha
  refine ⟨c, t, rfl, hc, Decidable.byContradiction fun hnot => ?_⟩
  have hchars : ∀ d ∈ c :: t, isWordChar d = true := by
    intro d hd
    cases hword : isWordChar d with
    | true => rfl
    | false => exact absurd ⟨d, hd, hword⟩ hnot
  obtain ⟨c', t', -, -, -, hrest⟩ := h _ a _ ha
  rw [List.dropWhile_append_of_pos hchars] at hrest
  have hlen := (hrest.trans (List.dropWhile_suffix _)).length_le
  have hpos := List.length_pos_iff.2 hr
  rw [List.length_append] at hlen
  omega

variable {word : Text}

theorem reads_wholeWord (hword : IsWord word) (h : x.Reads (wholeWord word) s t m) (hm : m ≠ []) :
    s = t ++ m ∧ WordEnds m ∧ t.Spells word := by
  obtain ⟨-, -, -, hends⟩ := wordChars_of_wholeWord hword h
  obtain ⟨v, rfl, hrest, -, hends, hspells⟩ :=
    exists_of_wholeWord hword ((hends.of_append.breaks hm).of_suffix h.suffix) h
  rw [List.append_cancel_right hrest]
  exact ⟨rfl, hends, hspells⟩

/-- **A keyword survives the exchange** in front of some text. -/
theorem keeps_wholeWord (hword : IsWord word) : x.Keeps (wholeWord word) (· ≠ []) := by
  intro s t m _ hm h
  obtain ⟨rfl, hends, hspells⟩ := reads_wholeWord hword h hm
  rw [List.append_assoc]
  exact wholeWord_append hspells (hends.append hm x.new)

theorem keeps_keyword {word : String} (hword : IsWord word.toList) :
    x.Keeps (keyword word) (· ≠ []) :=
  keeps_wholeWord hword

/-- A keyword stays out where the first word ends inside of the front. -/
theorem staysOut_wholeWord (hword : IsWord word) (hs : Breaks s) :
    x.StaysOut (wholeWord word) s := by
  rintro ⟨why, hwhy⟩
  refine (mild_wholeWord word).refuses fun t rest h => ?_
  obtain ⟨v, rfl, -, hv, hends, hspells⟩ := exists_of_wholeWord hword hs h
  rw [List.append_assoc, wholeWord_append hspells (hends.append hv x.old)] at hwhy
  cases hwhy

theorem staysOut_keyword {word : String} (hword : IsWord word.toList) (hs : Breaks s) :
    x.StaysOut (keyword word) s :=
  staysOut_wholeWord hword hs

/-- **Where a keyword is read, rules that start with other keywords refuse** whatever stands
behind. -/
theorem refuses_of_heads {a : α} {p : Rule β} (hq : q.Heads vs) (hp : p.LedBy ws)
    (hdiff : ∀ v ∈ vs, ∀ w ∈ ws, v.agreesWith w = false) (h : x.Reads q s a r) (hr : r ≠ [])
    (z : Text) : p.Refuses (s ++ z) := by
  obtain ⟨v, hv, hword, t, mid, ht, hrest⟩ := hq _ a _ h
  obtain ⟨w, rfl⟩ := hrest
  rw [← List.append_assoc] at ht
  have hne : w ++ r ≠ [] := fun hnil => hr (List.append_eq_nil_iff.1 hnil).2
  obtain ⟨rfl, -, hspells⟩ := reads_wholeWord hword ht hne
  rw [List.append_assoc]
  exact hp.refuses t (fun w hw => hspells.agreesWith (hdiff v hv w hw)) _

theorem Heads.breaks {a : α} (h : p.Heads vs) (ha : x.Reads p s a r) (hr : r ≠ []) :
    ∃ c t, s = c :: t ∧ isWordChar c = true ∧ Breaks (c :: t) :=
  Starts.breaks h.starts ha hr

/-- A choice between two keywords survives the exchange. -/
theorem keeps_keyword_orElse {v w : String} (hv : IsWord v.toList) (hw : IsWord w.toList) :
    x.Keeps (keyword v <|> keyword w) (· ≠ []) := by
  refine (keeps_keyword hv).orElse (keeps_keyword hw) fun s a r _ h hr => ?_
  obtain ⟨c, t, rfl, -, hbreaks⟩ := Heads.breaks (heads_keyword hw) h hr
  exact staysOut_keyword hv hbreaks

/-- A rule stays out where one of those that start with other keywords is read. -/
theorem staysOut_of_heads {qs : List (Rule α)} {vss : List (List Text)} {p : Rule β}
    (hp : p.LedBy ws) (hqs : List.Forall₂ Heads qs vss)
    (hdiff : ∀ vs ∈ vss, ∀ v ∈ vs, ∀ w ∈ ws, v.agreesWith w = false) (hL : ∀ r, L r → r ≠ []) :
    ∀ q ∈ qs, ∀ s a r, s <:+ x.whole → x.Reads q s a r → L r → x.StaysOut p s := by
  intro q hq s a r _ h hr
  obtain ⟨vs, hvs, hheads⟩ := exists_heads_of_mem hqs hq
  exact StaysOut.of_refuses (refuses_of_heads hheads hp (hdiff vs hvs) h (hL r hr))

theorem pairwise_staysOut_of_heads {ps : List (Rule α)} {wss : List (List Text)}
    (hled : List.Forall₂ LedBy ps wss) (hheads : List.Forall₂ Heads ps wss)
    (hdiff : wss.Pairwise fun ws vs => ∀ v ∈ vs, ∀ w ∈ ws, v.agreesWith w = false)
    (hL : ∀ r, L r → r ≠ []) :
    ps.Pairwise fun p q => ∀ s a r, s <:+ x.whole → x.Reads q s a r → L r → x.StaysOut p s := by
  induction hled with
  | nil => exact List.Pairwise.nil
  | cons hp _ ih =>
    cases hheads with
    | cons _ hheads =>
      rw [List.pairwise_cons] at hdiff ⊢
      exact ⟨staysOut_of_heads hp hheads hdiff.1 hL, ih hheads hdiff.2⟩

/-- **A choice between rules that start with different keywords survives the exchange.** -/
theorem keeps_firstOf_heads {ps : List (Rule α)} {wss : List (List Text)}
    (hled : List.Forall₂ LedBy ps wss) (hheads : List.Forall₂ Heads ps wss)
    (hdiff : wss.Pairwise fun ws vs => ∀ v ∈ vs, ∀ w ∈ ws, v.agreesWith w = false)
    (hps : ∀ p ∈ ps, x.Keeps p L) (hL : ∀ r, L r → r ≠ []) : x.Keeps (firstOf ps) L :=
  keeps_firstOf hps (pairwise_staysOut_of_heads hled hheads hdiff hL)

/-! ### Characters -/

theorem reads_satisfy {f : Char → Bool} {c : Char} (h : x.Reads (satisfy f) s c r) :
    s = c :: r ∧ f c = true := by
  obtain ⟨heq, hc⟩ := satisfy_eq_ok_iff.1 h
  rw [← List.cons_append] at heq
  exact ⟨List.append_cancel_right heq, hc⟩

theorem keeps_satisfy (f : Char → Bool) : x.Keeps (satisfy f) L := by
  intro s c r _ _ h
  obtain ⟨rfl, hc⟩ := reads_satisfy h
  exact satisfy_eq_ok_iff.2 ⟨rfl, hc⟩

theorem keeps_char (c : Char) : x.Keeps (char c) L :=
  keeps_satisfy _

theorem reads_char {c d : Char} (h : x.Reads (char c) s d r) : s = c :: r := by
  obtain ⟨rfl, hd⟩ := reads_satisfy h
  rw [beq_iff_eq.1 hd]

/-- Where a run of characters ends. -/
theorem exists_of_dropWhile {f : Char → Bool} (h : (s ++ x.old).dropWhile f = r ++ x.old)
    (hr : r ≠ []) :
    ∃ front, s = front ++ r ∧ (∀ c ∈ front, f c = true) ∧ ∀ c ∈ r.head?, f c = false := by
  have hsuffix : r ++ x.old <:+ s ++ x.old := h ▸ List.dropWhile_suffix f
  obtain ⟨front, hfront⟩ := hsuffix
  have htake : front = (s ++ x.old).takeWhile f := by
    have hsplit := List.takeWhile_append_dropWhile (p := f) (l := s ++ x.old)
    rw [h] at hsplit
    exact List.append_cancel_right (hfront.trans hsplit.symm)
  rw [← List.append_assoc] at hfront
  refine ⟨front, (List.append_cancel_right hfront).symm, fun c hc => ?_, fun c hc => ?_⟩
  · rw [htake] at hc
    exact List.mem_takeWhile_imp hc
  · cases r with
    | nil => exact absurd rfl hr
    | cons d t =>
      cases hc
      have hne : (s ++ x.old).dropWhile f ≠ [] := by simp [h]
      have hhead := List.head_dropWhile_not f hne
      simpa [h] using hhead

theorem reads_span1 {f : Char → Bool} (h : x.Reads (span1 f) s t r) (hr : r ≠ []) :
    s = t ++ r ∧ t ≠ [] ∧ (∀ c ∈ t, f c = true) ∧ ∀ c ∈ r.head?, f c = false := by
  obtain ⟨hne, htake, hdrop⟩ := span1_eq_ok_iff.1 h
  obtain ⟨front, rfl, hfront, hhead⟩ := exists_of_dropWhile hdrop.symm hr
  have hsplit := List.takeWhile_append_dropWhile (p := f) (l := front ++ r ++ x.old)
  rw [← hdrop, ← htake, List.append_assoc] at hsplit
  obtain rfl := List.append_cancel_right hsplit
  exact ⟨rfl, hne, hfront, hhead⟩

theorem head?_append {f : Char → Bool} (hr : r ≠ []) (h : ∀ c ∈ r.head?, f c = false) (z : Text) :
    ∀ c ∈ (r ++ z).head?, f c = false := by
  cases r with
  | nil => exact absurd rfl hr
  | cons d u => exact h

/-- A run of characters survives the exchange in front of some text. -/
theorem keeps_span1 (f : Char → Bool) : x.Keeps (span1 f) (· ≠ []) := by
  intro s t r _ hr h
  obtain ⟨rfl, hne, ht, hhead⟩ := reads_span1 h hr
  rw [List.append_assoc]
  exact span1_append hne ht (head?_append hr hhead x.new)

theorem keeps_span (f : Char → Bool) : x.Keeps (span f) (· ≠ []) := by
  intro s t r _ hr h
  have hdrop : (s ++ x.old).dropWhile f = r ++ x.old := by
    have h : Outcome.ok ((s ++ x.old).takeWhile f) ((s ++ x.old).dropWhile f) =
        .ok t (r ++ x.old) := h
    exact (Outcome.ok.inj h).2
  have htake : (s ++ x.old).takeWhile f = t := by
    have h : Outcome.ok ((s ++ x.old).takeWhile f) ((s ++ x.old).dropWhile f) =
        .ok t (r ++ x.old) := h
    exact (Outcome.ok.inj h).1
  obtain ⟨front, rfl, hfront, hhead⟩ := exists_of_dropWhile hdrop hr
  have hstop : ∀ z, (r ++ z).takeWhile f = [] ∧ (r ++ z).dropWhile f = r ++ z := by
    intro z
    cases r with
    | nil => exact absurd rfl hr
    | cons d u =>
      have hd : f d = false := hhead d rfl
      exact ⟨List.takeWhile_cons_of_neg (by simp [hd]), List.dropWhile_cons_of_neg (by simp [hd])⟩
  rw [List.append_assoc, List.takeWhile_append_of_pos hfront, (hstop x.old).1,
    List.append_nil] at htake
  rw [List.append_assoc, span, List.takeWhile_append_of_pos hfront,
    List.dropWhile_append_of_pos hfront, (hstop x.new).1, (hstop x.new).2, List.append_nil, htake]

theorem staysOut_satisfy (f : Char → Bool) (hs : s ≠ []) : x.StaysOut (satisfy f) s := by
  cases s with
  | nil => exact absurd rfl hs
  | cons c t =>
    cases hc : f c with
    | false => exact StaysOut.of_refuses fun _ => refuses_satisfy hc
    | true =>
      rintro ⟨why, hwhy⟩
      have hread : satisfy f (c :: t ++ x.old) = .ok c (t ++ x.old) :=
        satisfy_eq_ok_iff.2 ⟨rfl, hc⟩
      rw [hread] at hwhy
      cases hwhy

theorem staysOut_span1 (f : Char → Bool) (hs : s ≠ []) : x.StaysOut (span1 f) s := by
  cases s with
  | nil => exact absurd rfl hs
  | cons c t =>
    cases hc : f c with
    | false => exact StaysOut.of_refuses fun _ => refuses_span1 hc
    | true =>
      rintro ⟨why, hwhy⟩
      rw [List.cons_append, span1, if_pos hc] at hwhy
      cases hwhy

/-- A run of characters survives the exchange at the end of the front as well, if the new text does
not go on with one. -/
theorem keeps_span_of_head {f : Char → Bool} (hnew : ∀ c ∈ x.new.head?, f c = false) :
    x.Keeps (span f) L := by
  intro s t r hs _ h
  by_cases hr : r = []
  · subst hr
    obtain ⟨htake, hdrop⟩ : (s ++ x.old).takeWhile f = t ∧ (s ++ x.old).dropWhile f = x.old := by
      have h : Outcome.ok ((s ++ x.old).takeWhile f) ((s ++ x.old).dropWhile f) = .ok t x.old := h
      exact Outcome.ok.inj h
    have hsplit := List.takeWhile_append_dropWhile (p := f) (l := s ++ x.old)
    rw [htake, hdrop] at hsplit
    obtain rfl := List.append_cancel_right hsplit
    have hchars : ∀ c ∈ t, f c = true := fun c hc => List.mem_takeWhile_imp (htake.symm ▸ hc)
    have hstop : x.new.takeWhile f = [] ∧ x.new.dropWhile f = x.new := by
      cases hz : x.new with
      | nil => exact ⟨rfl, rfl⟩
      | cons d u =>
        have hd : f d = false := hnew d (by rw [hz]; rfl)
        exact ⟨List.takeWhile_cons_of_neg (by simp [hd]), List.dropWhile_cons_of_neg (by simp [hd])⟩
    rw [span, List.takeWhile_append_of_pos hchars, List.dropWhile_append_of_pos hchars, hstop.1,
      hstop.2, List.append_nil]
    rfl
  · exact keeps_span f s t r hs hr h

theorem keeps_span1_of_head {f : Char → Bool} (hnew : ∀ c ∈ x.new.head?, f c = false) :
    x.Keeps (span1 f) L := by
  intro s t r hs hr h
  obtain ⟨hne, htake, hdrop⟩ := span1_eq_ok_iff.1 h
  have hspan : span f (s ++ x.old) = .ok t (r ++ x.old) := by rw [htake, hdrop, span]
  have hnew' := keeps_span_of_head hnew s t r hs hr hspan
  rw [span, Outcome.ok.injEq] at hnew'
  exact span1_eq_ok_iff.2 ⟨hne, hnew'.1.symm, hnew'.2.symm⟩

theorem reads_literal {word : String} (h : x.Reads (literal word) s t r) :
    s = word.toList ++ r ∧ t = word.toList := by
  have h : literal word (s ++ x.old) = .ok t (r ++ x.old) := h
  rw [literal] at h
  split at h
  · next hprefix =>
    obtain ⟨u, hu⟩ := List.isPrefixOf_iff_prefix.1 hprefix
    rw [Outcome.ok.injEq, ← hu, List.drop_left] at h
    obtain ⟨rfl, rfl⟩ := h
    rw [← List.append_assoc] at hu
    exact ⟨(List.append_cancel_right hu).symm, rfl⟩
  · cases h

theorem keeps_literal (word : String) : x.Keeps (literal word) L := by
  intro s t r _ _ h
  obtain ⟨rfl, rfl⟩ := reads_literal h
  rw [List.append_assoc]
  exact literal_append word _

end Exchange

/-- Where a mark first occurs does not depend on what stands behind it. -/
theorem Text.splitBefore?_append {mark front y : Text}
    (h : splitBefore? mark (front ++ (mark ++ y)) = some (front, mark ++ y)) (z : Text) :
    splitBefore? mark (front ++ (mark ++ z)) = some (front, mark ++ z) := by
  have hprefix : ∀ u, mark.isPrefixOf (mark ++ u) = true := fun u => by simp
  induction front with
  | nil =>
    cases hmark : mark with
    | nil => cases z <;> rfl
    | cons c mark' =>
      have hz := hprefix z
      rw [hmark, List.cons_append] at hz
      rw [List.nil_append, List.cons_append, splitBefore?, if_pos hz]
  | cons c front ih =>
    rw [List.cons_append, splitBefore?] at h ⊢
    split at h
    · cases h
    · next hnot =>
      obtain ⟨⟨front', rest⟩, hparts, heq⟩ := Option.map_eq_some_iff.1 h
      simp only [Prod.mk.injEq, List.cons.injEq, true_and] at heq
      obtain ⟨rfl, rfl⟩ := heq
      -- the mark does not reach beyond its occurrence
      have hnot' : ¬ mark.isPrefixOf (c :: (front' ++ (mark ++ z))) = true := by
        rw [List.isPrefixOf_iff_prefix] at hnot ⊢
        intro hpre
        refine hnot ?_
        have hpre : mark <+: c :: front' ++ mark ++ z := by
          rw [List.append_assoc]
          exact hpre
        have hshort : mark <+: c :: front' ++ mark := by
          refine List.prefix_of_prefix_length_le hpre (List.prefix_append _ z) ?_
          rw [List.length_append]
          omega
        have hlong : c :: front' ++ mark <+: c :: (front' ++ (mark ++ y)) := by
          rw [← List.append_assoc, ← List.cons_append]
          exact List.prefix_append _ y
        exact hshort.trans hlong
      rw [if_neg hnot', ih hparts]
      rfl

end SchemaDelta
