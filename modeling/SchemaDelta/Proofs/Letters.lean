/-
**The characters of words.**

Names of types go through both mappings of case, and keywords are compared in lower case.  What is
needed of the tables is little: no word character is white space, and above ASCII only two
characters have something of ASCII in their lower-case form, the dotted capital i and the sign for
the kelvin.

Main results:

* `SchemaDelta.isBlankChar_of_isWordChar` — word characters are not trimmed;
* `SchemaDelta.lowerChar_of_not_ascii` — the lower-case forms of the characters above ASCII;
* `SchemaDelta.Text.lowercase_uppercase` — **an ASCII text in lower case survives both mappings**;
* `SchemaDelta.Text.isWordChar_of_mem_upperChar` — what upper-case forms have of ASCII are letters.
-/

import SchemaDelta.Lexeme.Word
import SchemaDelta.Text.Uppercase

set_option relaxedAutoImplicit false
set_option autoImplicit false

namespace SchemaDelta

/-! ### The characters of a text -/

section

variable {P : Char → Prop} [DecidablePred P]

/-- What all characters of a text have in common is found by going through the text, not through
all the characters that there are. -/
instance (priority := high) decidableForallMem (t : List Char) : Decidable (∀ c ∈ t, P c) :=
  List.decidableBAll P t

instance (priority := high) decidableExistsMem (t : List Char) : Decidable (∃ c ∈ t, P c) :=
  List.decidableBEx P t

end

/-! ### Characters of ASCII -/

/-- What holds for the first 128 code points holds for every character of ASCII. -/
theorem forall_ascii {P : Char → Prop} (h : ∀ n : Fin 128, P (Char.ofNat n)) {c : Char}
    (hc : c.toNat < 128) : P c := by
  have hn := h ⟨c.toNat, hc⟩
  rwa [Char.ofNat_toNat] at hn

theorem toLower_toUpper {c : Char} (hc : c.toNat < 128) (hupper : c.isUpper = false) :
    c.toUpper.toLower = c := by
  revert hupper
  exact forall_ascii (P := fun c => c.isUpper = false → c.toUpper.toLower = c) (by decide) hc

theorem isUpper_toLower {c : Char} (hc : c.toNat < 128) : c.toLower.isUpper = false :=
  forall_ascii (P := fun c => c.toLower.isUpper = false) (by decide) hc

theorem toUpper_ascii {c : Char} (hc : c.toNat < 128) : c.toUpper.toNat < 128 :=
  forall_ascii (P := fun c => c.toUpper.toNat < 128) (by decide) hc

theorem isWordChar_toUpper {c : Char} (hc : c.toNat < 128) (hword : isWordChar c = true) :
    isWordChar c.toUpper = true := by
  revert hword
  exact forall_ascii (P := fun c => isWordChar c = true → isWordChar c.toUpper = true)
    (by decide) hc

theorem isWordChar_toLower {c : Char} (hc : c.toNat < 128) (hword : isWordChar c = true) :
    isWordChar c.toLower = true := by
  revert hword
  exact forall_ascii (P := fun c => isWordChar c = true → isWordChar c.toLower = true)
    (by decide) hc

theorem toNat_ofNat_of_valid {n : Nat} (h : n.isValidChar) : (Char.ofNat n).toNat = n := by
  rw [Char.ofNat, dif_pos h]
  rfl

/-! ### Word characters and white space -/

/-- The code points that are trimmed, one by one. -/
theorem mem_of_isBlankChar {c : Char} (h : Text.isBlankChar c = true) :
    c.toNat ∈ [0x9, 0xA, 0xB, 0xC, 0xD, 0x20, 0x85, 0xA0, 0x1680, 0x2000, 0x2001, 0x2002, 0x2003,
      0x2004, 0x2005, 0x2006, 0x2007, 0x2008, 0x2009, 0x200A, 0x2028, 0x2029, 0x202F, 0x205F,
      0x3000] := by
  obtain ⟨s, hs, hle, hge⟩ := inSpans_iff.1 h
  simp only [Text.blankSpans, List.mem_cons, List.not_mem_nil, or_false] at hs
  simp only [List.mem_cons, List.not_mem_nil, or_false]
  rcases hs with rfl | rfl | rfl | rfl | rfl | rfl | rfl | rfl | rfl | rfl <;> omega

/-- No word character is white space. -/
theorem isBlankChar_of_isWordChar {c : Char} (h : isWordChar c = true) :
    Text.isBlankChar c = false := by
  have hnone : ∀ n ∈ [0x9, 0xA, 0xB, 0xC, 0xD, 0x20, 0x85, 0xA0, 0x1680, 0x2000, 0x2001, 0x2002,
      0x2003, 0x2004, 0x2005, 0x2006, 0x2007, 0x2008, 0x2009, 0x200A, 0x2028, 0x2029, 0x202F,
      0x205F, 0x3000], isWordChar (Char.ofNat n) = false := by
    decide +kernel
  cases hblank : Text.isBlankChar c with
  | false => rfl
  | true =>
      have hc := hnone c.toNat (mem_of_isBlankChar hblank)
      rw [Char.ofNat_toNat, h] at hc
      cases hc

/-! ### Lower case -/

/-- The images of the lower-case mapping above ASCII stay there, the sign for the kelvin apart. -/
theorem lowerRuns_images : ∀ r ∈ lowerRuns,
    (r.first = r.last ∧ r.image = 0x6B) ∨
      (0x80 ≤ r.image ∧ r.image + (r.last - r.first) < 0xD800) ∨
      (0xE000 ≤ r.image ∧ r.image + (r.last - r.first) < 0x110000) := by
  decide +kernel

/-- Above ASCII only two lower-case forms have a character of ASCII. -/
theorem lowerChar_of_not_ascii {c : Char} (hc : ¬ c.toNat < 128) :
    lowerChar c = ['i', Char.ofNat 0x307] ∨ lowerChar c = ['k'] ∨
      ∃ d, lowerChar c = [d] ∧ ¬ d.toNat < 128 := by
  rw [lowerChar, if_neg hc]
  by_cases hdotted : c.toNat = 0x130
  · exact .inl (if_pos hdotted)
  · rw [if_neg hdotted]
    right
    cases himage : caseImage? lowerRuns c.toNat with
    | none => exact .inr ⟨c, rfl, hc⟩
    | some n =>
        obtain ⟨r, hr, hfirst, hlast, rfl⟩ := exists_of_caseImage? himage
        rcases lowerRuns_images r hr with ⟨hone, hk⟩ | ⟨hlow, hhigh⟩ | ⟨hlow, hhigh⟩
        · -- the sign for the kelvin
          have hn : r.image + (c.toNat - r.first) = 0x6B := by omega
          left
          rw [hn]
        · refine .inr ⟨_, rfl, ?_⟩
          have hvalid : (r.image + (c.toNat - r.first)).isValidChar := by
            left
            omega
          rw [toNat_ofNat_of_valid hvalid]
          omega
        · refine .inr ⟨_, rfl, ?_⟩
          have hvalid : (r.image + (c.toNat - r.first)).isValidChar := by
            right
            omega
          rw [toNat_ofNat_of_valid hvalid]
          omega

/-- A letter of ASCII other than the k is the lower-case form of characters of ASCII only. -/
theorem ascii_of_lowerChar {c d : Char} (h : lowerChar c = [d]) (hd : d.toNat < 128)
    (hk : d ≠ 'k') : c.toNat < 128 := by
  refine Decidable.byContradiction fun hc => ?_
  rcases lowerChar_of_not_ascii hc with hi | hkelvin | ⟨e, he, hnot⟩
  · rw [hi] at h
    cases h
  · rw [hkelvin] at h
    cases h
    exact hk rfl
  · rw [he] at h
    cases h
    exact hnot hd

namespace Text

theorem mem_lowercaseAfter {before t : Text} {c : Char} (h : c ∈ lowercaseAfter before t) :
    (∃ d ∈ t, c ∈ lowerChar d) ∨ c = 'σ' ∨ c = 'ς' := by
  induction t generalizing before with
  | nil => cases h
  | cons d t ih =>
      rw [lowercaseAfter] at h
      rcases List.mem_append.1 h with h | h
      · split at h
        · split at h
          · exact .inr (.inr (by simpa using h))
          · exact .inr (.inl (by simpa using h))
        · exact .inl ⟨d, List.mem_cons_self, h⟩
      · rcases ih h with ⟨e, he, hc⟩ | h
        · exact .inl ⟨e, List.mem_cons_of_mem d he, hc⟩
        · exact .inr h

/-- The characters of ASCII in the lower-case form of a word belong to words and are not capitals. -/
theorem isWordChar_of_mem_lowercase {t : Text} (ht : ∀ d ∈ t, isWordChar d = true) {c : Char}
    (h : c ∈ lowercase t) (hc : c.toNat < 128) : isWordChar c = true ∧ c.isUpper = false := by
  rcases mem_lowercaseAfter h with ⟨d, hd, hmem⟩ | rfl | rfl
  · by_cases hascii : d.toNat < 128
    · rw [lowerChar_ascii hascii] at hmem
      obtain rfl : c = d.toLower := by simpa using hmem
      exact ⟨isWordChar_toLower hascii (ht d hd), isUpper_toLower hascii⟩
    · rcases lowerChar_of_not_ascii hascii with hi | hk | ⟨e, he, hnot⟩
      · rw [hi] at hmem
        rcases List.mem_cons.1 hmem with rfl | hmem
        · decide
        · obtain rfl : c = Char.ofNat 0x307 := by simpa using hmem
          exact absurd hc (by decide)
      · rw [hk] at hmem
        obtain rfl : c = 'k' := by simpa using hmem
        decide
      · rw [he] at hmem
        obtain rfl : c = e := by simpa using hmem
        exact absurd hc hnot
  · exact absurd hc (by decide)
  · exact absurd hc (by decide)

/-- **An ASCII text in lower case survives both mappings.** -/
theorem lowercase_uppercase {t : Text} (hascii : ∀ c ∈ t, c.toNat < 128)
    (hlower : ∀ c ∈ t, c.isUpper = false) : lowercase (uppercase t) = t := by
  have hupper : ∀ c ∈ t.map Char.toUpper, c.toNat < 128 := by
    intro c hc
    obtain ⟨d, hd, rfl⟩ := List.mem_map.1 hc
    exact toUpper_ascii (hascii d hd)
  rw [uppercase_ascii hascii, lowercase_ascii hupper, List.map_map]
  calc t.map (Char.toLower ∘ Char.toUpper) = t.map id :=
        List.map_congr_left fun c hc => toLower_toUpper (hascii c hc) (hlower c hc)
    _ = t := List.map_id t

theorem lowercase_ne_nil {t : Text} (h : t ≠ []) : lowercase t ≠ [] := by
  have hchar : ∀ c, lowerChar c ≠ [] := by
    intro c
    rw [lowerChar]
    split
    · exact List.cons_ne_nil _ _
    · split
      · exact List.cons_ne_nil _ _
      · split <;> exact List.cons_ne_nil _ _
  cases t with
  | nil => exact absurd rfl h
  | cons c t =>
      rw [lowercase, lowercaseAfter]
      split
      · exact List.cons_ne_nil _ _
      · exact List.append_ne_nil_of_left_ne_nil (hchar c) _

/-! ### Upper case -/

/-- The images of the upper-case mapping above ASCII stay there, but for the i and the s that two
characters are written with. -/
theorem upperRuns_images : ∀ r ∈ upperRuns,
    (r.first = r.last ∧ (r.image = 0x49 ∨ r.image = 0x53)) ∨
      (0x80 ≤ r.image ∧ r.image + (r.last - r.first) < 0xD800) ∨
      (0xE000 ≤ r.image ∧ r.image + (r.last - r.first) < 0x110000) := by
  decide +kernel

/-- The longer upper-case forms are not empty, and what they have of ASCII are letters. -/
theorem upperExpansions_images : ∀ p ∈ upperExpansions, p.2 ≠ [] ∧
    ∀ n ∈ p.2, n.isValidChar ∧ (n < 128 → isWordChar (Char.ofNat n) = true) := by
  decide +kernel

theorem mem_upperExpansions {n : Nat} {ns : List Nat} (h : upperExpansions.lookup n = some ns) :
    (n, ns) ∈ upperExpansions := by
  obtain ⟨front, back, heq, -⟩ := List.lookup_eq_some_iff.1 h
  rw [heq]
  exact List.mem_append_right front List.mem_cons_self

theorem upperChar_ne_nil (c : Char) : upperChar c ≠ [] := by
  rw [upperChar]
  split
  · exact List.cons_ne_nil _ _
  · cases hlookup : upperExpansions.lookup c.toNat with
    | some ns => simpa using (upperExpansions_images _ (mem_upperExpansions hlookup)).1
    | none => cases caseImage? upperRuns c.toNat <;> exact List.cons_ne_nil _ _

theorem uppercase_ne_nil {t : Text} (h : t ≠ []) : uppercase t ≠ [] := by
  obtain ⟨c, t, rfl⟩ := List.exists_cons_of_ne_nil h
  rw [uppercase, List.flatMap_cons]
  exact List.append_ne_nil_of_left_ne_nil (upperChar_ne_nil c) _

/-- The characters of ASCII in the upper-case form of a character belong to words if it does. -/
theorem isWordChar_of_mem_upperChar {c d : Char} (hd : d.toNat < 128 → isWordChar d = true)
    (h : c ∈ upperChar d) (hc : c.toNat < 128) : isWordChar c = true := by
  by_cases hascii : d.toNat < 128
  · rw [upperChar_ascii hascii] at h
    obtain rfl : c = d.toUpper := by simpa using h
    exact isWordChar_toUpper hascii (hd hascii)
  rw [upperChar, if_neg hascii] at h
  cases hlookup : upperExpansions.lookup d.toNat with
  | some ns =>
      rw [hlookup] at h
      obtain ⟨n, hn, rfl⟩ := List.mem_map.1 h
      obtain ⟨hvalid, hword⟩ := (upperExpansions_images _ (mem_upperExpansions hlookup)).2 n hn
      rw [toNat_ofNat_of_valid hvalid] at hc
      exact hword hc
  | none =>
      rw [hlookup] at h
      cases himage : caseImage? upperRuns d.toNat with
      | none =>
          rw [himage] at h
          obtain rfl : c = d := by simpa using h
          exact absurd hc hascii
      | some n =>
          rw [himage] at h
          obtain rfl : c = Char.ofNat n := by simpa using h
          obtain ⟨r, hr, hfirst, hlast, rfl⟩ := exists_of_caseImage? himage
          rcases upperRuns_images r hr with ⟨hone, himage⟩ | ⟨hlow, hhigh⟩ | ⟨hlow, hhigh⟩
          · have hn : r.image + (d.toNat - r.first) = r.image := by omega
            rw [hn]
            rcases himage with himage | himage <;> rw [himage] <;> decide
          · have hvalid : (r.image + (d.toNat - r.first)).isValidChar := by
              left
              omega
            rw [toNat_ofNat_of_valid hvalid] at hc
            omega
          · have hvalid : (r.image + (d.toNat - r.first)).isValidChar := by
              right
              omega
            rw [toNat_ofNat_of_valid hvalid] at hc
            omega

/-! ### Trimming -/

theorem trim_eq_self {t : Text} (hhead : ∀ c ∈ t.head?, isBlankChar c = false)
    (hlast : ∀ c ∈ t.getLast?, isBlankChar c = false) : trim t = t := by
  have hstart : trimStart t = t := by
    cases t with
    | nil => rfl
    | cons c t => exact List.dropWhile_cons_of_neg (by simpa using hhead c rfl)
  have hend : t.reverse.dropWhile isBlankChar = t.reverse := by
    cases h : t.reverse with
    | nil => rfl
    | cons c u =>
        have hc : c ∈ t.getLast? := by
          rw [List.getLast?_eq_head?_reverse, h]
          rfl
        exact List.dropWhile_cons_of_neg (by simpa using hlast c hc)
  rw [trim, hstart, trimEnd, hend, List.reverse_reverse]

theorem trim_of_not_blank {t : Text} (h : ∀ c ∈ t, isBlankChar c = false) : trim t = t :=
  trim_eq_self (fun c hc => h c (List.mem_of_mem_head? hc))
    fun c hc => h c (List.mem_of_getLast? hc)

/-- Nothing is trimmed from a text between two quotes. -/
theorem trim_quoted {q : Char} (hq : isBlankChar q = false) (body : Text) :
    trim (q :: (body ++ [q])) = q :: (body ++ [q]) := by
  refine trim_eq_self (fun c hc => ?_) fun c hc => ?_
  · cases hc
    exact hq
  · rw [← List.cons_append, List.getLast?_concat] at hc
    cases hc
    exact hq

end Text

end SchemaDelta
