/-
**The arguments of types.**

An argument is a number, a string or a word, and it is kept as it was written.  Where it ends is
decided by its own characters as long as no word, point or quote follows, so that it is read back
wherever a comma or a parenthesis stands behind it.

Main definitions:

* `SchemaDelta.Source.IsArgument` — the forms of an argument.

Main results:

* `SchemaDelta.Source.yields_typeArg` — what is read as an argument has one of the forms;
* `SchemaDelta.Source.typeArg_append` — **an argument is read back** in front of any stop;
* `SchemaDelta.Source.typeArgs_append` — and so is the list of them in its parentheses.
-/

import SchemaDelta.Proofs.Quoted
import SchemaDelta.Source.Column
import SchemaDelta.Script.Writing

set_option relaxedAutoImplicit false
set_option autoImplicit false

namespace SchemaDelta.Source

open Rule Lexeme

/-! ### Numbers -/

/-- A sign, or nothing. -/
def IsSign (t : Text) : Prop :=
  t = [] ∨ t = ['+'] ∨ t = ['-']

/-- A run of decimal digits. -/
def IsDigits (t : Text) : Prop :=
  t ≠ [] ∧ ∀ c ∈ t, c.isDigit = true

/-- A decimal point with the digits after it, or nothing. -/
def IsFraction (t : Text) : Prop :=
  t = [] ∨ ∃ ds, t = '.' :: ds ∧ ∀ c ∈ ds, c.isDigit = true

/-- The power of ten that a number is multiplied by, or nothing. -/
def IsExponent (t : Text) : Prop :=
  t = [] ∨ ∃ e sign ds, t = e :: (sign ++ ds) ∧ (e = 'e' ∨ e = 'E') ∧ IsSign sign ∧ IsDigits ds

/-- The forms of an argument. -/
inductive IsArgument : Text → Prop where
  | number {sign digits fraction exponent : Text} (hsign : IsSign sign) (hdigits : IsDigits digits)
      (hfraction : IsFraction fraction) (hexponent : IsExponent exponent) :
      IsArgument (sign ++ digits ++ fraction ++ exponent)
  | string {q : Char} {body : Text} (hq : q = singleQuote ∨ q = doubleQuote)
      (hbody : Text.splitAtQuote? q (body ++ [q]) = some (body, [])) :
      IsArgument (q :: (body ++ [q]))
  | word {t : Text} (hne : t ≠ []) (hword : ∀ c ∈ t, isWordChar c = true)
      (hdigit : ∀ c ∈ t.head?, c.isDigit = false) : IsArgument t

variable {s t rest : Text}

/-- No character of a number may follow it. -/
def NumberEnds (s : Text) : Prop :=
  ∀ c ∈ s.head?, (c.isDigit || c == '.' || c == 'e' || c == 'E') = false

theorem sign_append (hsign : IsSign t) (hrest : ∀ c ∈ rest.head?, c ≠ '+' ∧ c ≠ '-') :
    ∃ o, Rule.optional (oneOf "+-") (t ++ rest) = .ok o rest := by
  rcases hsign with rfl | rfl | rfl
  · have hrefuses : (oneOf "+-").Refuses rest := by
      cases rest with
      | nil => exact ⟨⟨[], []⟩, rfl⟩
      | cons c u =>
          obtain ⟨hplus, hminus⟩ := hrest c rfl
          exact refuses_satisfy (by simp [hplus, hminus])
    exact ⟨none, hrefuses.optional⟩
  · exact ⟨some '+', optional_of_ok rfl⟩
  · exact ⟨some '-', optional_of_ok rfl⟩

theorem digits1_append (hdigits : IsDigits t) (hrest : ∀ c ∈ rest.head?, c.isDigit = false) :
    digits1 (t ++ rest) = .ok t rest :=
  span1_append hdigits.1 hdigits.2 hrest

/-- Digits are no signs. -/
theorem IsDigits.head (hdigits : IsDigits t) (rest : Text) :
    ∀ c ∈ (t ++ rest).head?, c ≠ '+' ∧ c ≠ '-' := by
  obtain ⟨hne, hdigit⟩ := hdigits
  cases t with
  | nil => exact absurd rfl hne
  | cons d t =>
      intro c hc
      cases hc
      have hd := hdigit d List.mem_cons_self
      constructor <;> rintro rfl <;> exact absurd hd (by decide)

theorem fraction_append (hfraction : IsFraction t)
    (hrest : ∀ c ∈ rest.head?, c.isDigit = false ∧ c ≠ '.') :
    ∃ o, Rule.optional (char '.' *> span Char.isDigit) (t ++ rest) = .ok o rest := by
  rcases hfraction with rfl | ⟨ds, rfl, hds⟩
  · have hrefuses : (char '.').Refuses rest := by
      cases rest with
      | nil => exact ⟨⟨[], []⟩, rfl⟩
      | cons c u => exact refuses_char (hrest c rfl).2
    exact ⟨none, (hrefuses.bind _).optional⟩
  · have hspan : span Char.isDigit (ds ++ rest) = .ok ds rest := by
      have hstop : rest.takeWhile Char.isDigit = [] ∧ rest.dropWhile Char.isDigit = rest := by
        cases rest with
        | nil => exact ⟨rfl, rfl⟩
        | cons c u =>
            have hc := (hrest c rfl).1
            exact ⟨by simp [hc], by simp [hc]⟩
      rw [span, List.takeWhile_append_of_pos hds, List.dropWhile_append_of_pos hds, hstop.1,
        hstop.2, List.append_nil]
    exact ⟨some ds, optional_of_ok ((bind_of_ok (char_cons '.' (ds ++ rest)) _).trans hspan)⟩

/-- The rule for the exponent of a number. -/
def exponent : Rule Text := do
  let _ ← oneOf "eE"
  let _ ← Rule.optional (oneOf "+-")
  digits1

theorem exponent_append (hexponent : IsExponent t) (hrest : NumberEnds rest) :
    ∃ o, Rule.optional exponent (t ++ rest) = .ok o rest := by
  rcases hexponent with rfl | ⟨e, sign, ds, rfl, he, hsign, hds⟩
  · have hrefuses : (oneOf "eE").Refuses rest := by
      cases rest with
      | nil => exact ⟨⟨[], []⟩, rfl⟩
      | cons c u =>
          have hc := hrest c rfl
          simp only [Bool.or_eq_false_iff, beq_eq_false_iff_ne] at hc
          exact refuses_satisfy (by simp [hc.1.2, hc.2])
    exact ⟨none, (hrefuses.bind _).optional⟩
  · obtain ⟨o, hoptional⟩ := sign_append hsign (hds.head rest)
    have hletter : oneOf "eE" (e :: (sign ++ (ds ++ rest))) = .ok e (sign ++ (ds ++ rest)) := by
      rcases he with rfl | rfl <;> rfl
    have hdigit : ∀ c ∈ rest.head?, c.isDigit = false := by
      intro c hc
      have hc := hrest c hc
      simp only [Bool.or_eq_false_iff] at hc
      exact hc.1.1.1
    refine ⟨some ds, optional_of_ok ?_⟩
    rw [List.cons_append, List.append_assoc, exponent, bind_of_ok hletter, bind_of_ok hoptional,
      digits1_append hds hdigit]

theorem number_append {sign digits fraction exponent : Text} (hsign : IsSign sign)
    (hdigits : IsDigits digits) (hfraction : IsFraction fraction) (hexponent : IsExponent exponent)
    (hrest : NumberEnds rest) :
    number (sign ++ digits ++ fraction ++ exponent ++ rest) =
      .ok (sign ++ digits ++ fraction ++ exponent) rest := by
  have hstop : ∀ c ∈ rest.head?, c.isDigit = false ∧ c ≠ '.' := by
    intro c hc
    have hc := hrest c hc
    simp only [Bool.or_eq_false_iff, beq_eq_false_iff_ne] at hc
    exact hc.1.1
  -- no part runs on into the next one
  have hexp : ∀ c ∈ (exponent ++ rest).head?, c.isDigit = false ∧ c ≠ '.' := by
    rcases hexponent with rfl | ⟨e, sign', ds, rfl, he, -, -⟩
    · exact hstop
    · intro c hc
      cases hc
      rcases he with rfl | rfl <;> decide
  have hfrac : ∀ c ∈ (fraction ++ (exponent ++ rest)).head?, c.isDigit = false := by
    rcases hfraction with rfl | ⟨ds, rfl, -⟩
    · exact fun c hc => (hexp c hc).1
    · intro c hc
      cases hc
      decide
  obtain ⟨o, ho⟩ := sign_append hsign (hdigits.head (fraction ++ (exponent ++ rest)))
  obtain ⟨o', ho'⟩ := fraction_append hfraction hexp
  obtain ⟨o'', ho''⟩ := exponent_append hexponent hrest
  have hpieces : sign ++ digits ++ fraction ++ exponent ++ rest =
      sign ++ (digits ++ (fraction ++ (exponent ++ rest))) := by
    simp only [List.append_assoc]
  refine matched_of_ok (a := ()) ?_
  rw [hpieces, bind_of_ok ho, bind_of_ok (digits1_append hdigits hfrac), bind_of_ok ho']
  exact bind_of_ok ho'' _

/-- A number starts with a sign or a digit. -/
theorem refuses_number {c : Char} (hsign : c ≠ '+' ∧ c ≠ '-') (hdigit : c.isDigit = false)
    (t : Text) : number.Refuses (c :: t) := by
  have hoptional : (oneOf "+-").Refuses (c :: t) :=
    refuses_satisfy (by simp [hsign.1, hsign.2])
  exact (refuses_bind_of_ok hoptional.optional ((refuses_span1 hdigit).bind _)).matched

/-! ### What is read as an argument -/

theorem exists_of_sign {o : Option Char} (h : Rule.optional (oneOf "+-") s = .ok o rest) :
    ∃ sign, IsSign sign ∧ s = sign ++ rest := by
  rcases optional_eq_ok h with ⟨c, -, hc⟩ | ⟨-, -, rfl⟩
  · obtain ⟨rfl, hin⟩ := satisfy_eq_ok_iff.1 hc
    have hmem : c = '+' ∨ c = '-' := by simpa using hin
    rcases hmem with rfl | rfl
    · exact ⟨['+'], .inr (.inl rfl), rfl⟩
    · exact ⟨['-'], .inr (.inr rfl), rfl⟩
  · exact ⟨[], .inl rfl, rfl⟩

theorem exists_of_digits1 (h : digits1 s = .ok t rest) : IsDigits t ∧ s = t ++ rest := by
  obtain ⟨hne, rfl, rfl⟩ := span1_eq_ok_iff.1 h
  exact ⟨⟨hne, fun c hc => List.mem_takeWhile_imp hc⟩, List.takeWhile_append_dropWhile.symm⟩

/-- What is read as a number is one. -/
theorem exists_of_number (h : number s = .ok t rest) : IsArgument t ∧ s = t ++ rest := by
  obtain ⟨u, hnumber, rfl⟩ := matched_eq_ok h
  obtain ⟨o₁, s₁, hread₁, h₁⟩ := bind_eq_ok_iff.1 hnumber
  obtain ⟨ds, s₂, hread₂, h₂⟩ := bind_eq_ok_iff.1 h₁
  obtain ⟨o₂, s₃, hread₃, h₃⟩ := bind_eq_ok_iff.1 h₂
  obtain ⟨o₃, s₄, hread₄, hpure⟩ := bind_eq_ok_iff.1 h₃
  cases hpure
  -- each of the four parts is a piece of the text in front of what the next one read
  obtain ⟨sign, hsign, heq₁⟩ := exists_of_sign hread₁
  obtain ⟨hdigits, heq₂⟩ := exists_of_digits1 hread₂
  obtain ⟨fraction, hfraction, heq₃⟩ : ∃ fraction, IsFraction fraction ∧ s₂ = fraction ++ s₃ := by
    rcases optional_eq_ok hread₃ with ⟨ds', -, hds⟩ | ⟨-, -, rfl⟩
    · obtain ⟨c, mid, hpoint, hspan⟩ := bind_eq_ok_iff.1 hds
      obtain ⟨hs, rfl⟩ := char_eq_ok_iff.1 hpoint
      cases hspan
      refine ⟨'.' :: mid.takeWhile Char.isDigit,
        .inr ⟨_, rfl, fun c hc => List.mem_takeWhile_imp hc⟩, ?_⟩
      rw [hs, List.cons_append, List.takeWhile_append_dropWhile]
    · exact ⟨[], .inl rfl, rfl⟩
  obtain ⟨exp, hexponent, heq₄⟩ : ∃ exp, IsExponent exp ∧ s₃ = exp ++ rest := by
    rcases optional_eq_ok hread₄ with ⟨ds', -, hexp⟩ | ⟨-, -, rfl⟩
    · obtain ⟨e, mid, hletter, hexp⟩ := bind_eq_ok_iff.1 hexp
      obtain ⟨o, mid', hread, hds⟩ := bind_eq_ok_iff.1 hexp
      obtain ⟨hs, he⟩ := satisfy_eq_ok_iff.1 hletter
      obtain ⟨sign', hsign', hmid⟩ := exists_of_sign hread
      obtain ⟨hds, hmid'⟩ := exists_of_digits1 hds
      refine ⟨e :: (sign' ++ ds'), .inr ⟨e, sign', ds', rfl, by simpa using he, hsign', hds⟩, ?_⟩
      rw [hs, hmid, hmid', List.cons_append, List.append_assoc]
    · exact ⟨[], .inl rfl, rfl⟩
  have hpieces : s = sign ++ ds ++ fraction ++ exp ++ rest := by
    rw [heq₁, heq₂, heq₃, heq₄]
    simp only [List.append_assoc]
  rw [take_of_append hpieces]
  exact ⟨.number hsign hdigits hfraction hexponent, hpieces⟩

/-- A digit in front is read as the start of a number. -/
theorem not_refuses_number {c : Char} (hc : c.isDigit = true) (u : Text) :
    ¬ number.Refuses (c :: u) := by
  rintro ⟨why, h⟩
  have hsign : c ≠ '+' ∧ c ≠ '-' := by
    constructor <;> rintro rfl <;> exact absurd hc (by decide)
  have hoptional : (oneOf "+-").Refuses (c :: u) :=
    refuses_satisfy (by simp [hsign.1, hsign.2])
  have hdigits : digits1 (c :: u) = .ok (c :: u.takeWhile Char.isDigit) (u.dropWhile Char.isDigit) :=
    if_pos hc
  obtain ⟨o₁, s₁, hfraction⟩ : ∃ o s₁, Rule.optional (char '.' *> span Char.isDigit)
      (u.dropWhile Char.isDigit) = .ok o s₁ :=
    Mild.optional_eq_ok ((mild_satisfy _).bind fun _ => mild_span _) _
  obtain ⟨o₂, s₂, hexponent⟩ : ∃ o s₂, Rule.optional exponent s₁ = .ok o s₂ :=
    Mild.optional_eq_ok ((mild_satisfy _).bind fun _ => (mild_satisfy _).optional.bind fun _ =>
      mild_span1 _) _
  have hread : number (c :: u) = .ok ((c :: u).take ((c :: u).length - s₂.length)) s₂ := by
    rw [number, matched, bind_of_ok hoptional.optional, bind_of_ok hdigits, bind_of_ok hfraction]
    have hlast := bind_of_ok hexponent fun _ => (pure () : Rule Unit)
    rw [exponent] at hlast
    rw [hlast]
    rfl
  rw [hread] at h
  cases h

/-- **What is read as an argument has one of its forms.** -/
theorem yields_typeArg : typeArg.Yields IsArgument := by
  intro s t rest h
  rw [typeArg, firstOf_cons_cons, firstOf_cons_cons, firstOf_singleton] at h
  rcases orElse_eq_ok h with h | ⟨hnumber, h⟩
  · exact (exists_of_number h).1
  rcases orElse_eq_ok h with h | ⟨-, h⟩
  · obtain ⟨⟨q, body⟩, hstring, rfl⟩ := matched_eq_ok h
    obtain ⟨hq, hs, hsplit⟩ := quotedString_eq_ok hstring
    rw [take_of_append hs]
    exact .string hq (Text.splitAtQuote?_append hsplit (by simp))
  · obtain ⟨hne, hword⟩ := yields_span1 isWordChar s t rest h
    obtain ⟨-, ht, -⟩ := span1_eq_ok_iff.1 h
    -- a word that starts with a digit would have been read as a number
    refine .word hne hword fun c hc => ?_
    cases hdigit : c.isDigit with
    | false => rfl
    | true =>
        have hs : s = t ++ s.dropWhile isWordChar := by
          rw [ht, List.takeWhile_append_dropWhile]
        cases t with
        | nil => cases hc
        | cons d u =>
            cases hc
            rw [hs] at hnumber
            exact absurd hnumber (not_refuses_number hdigit _)

/-! ### The characters of numbers -/

/-- The characters that numbers are written with. -/
def isNumberChar (c : Char) : Bool :=
  c.isDigit || c == '+' || c == '-' || c == '.' || c == 'e' || c == 'E'

theorem isBlankChar_of_isNumberChar {c : Char} (h : isNumberChar c = true) :
    Text.isBlankChar c = false := by
  have hascii : c.toNat < 128 := by
    simp only [isNumberChar, Bool.or_eq_true, beq_iff_eq] at h
    rcases h with ((((h | rfl) | rfl) | rfl) | rfl) | rfl
    · have hle : c.toNat ≤ '9'.toNat := by
        simp only [Char.isDigit, Bool.and_eq_true, decide_eq_true_eq] at h
        exact h.2
      exact Nat.lt_of_le_of_lt hle (by decide)
    all_goals decide
  revert h
  exact forall_ascii (P := fun c => isNumberChar c = true → Text.isBlankChar c = false)
    (by decide) hascii

theorem isNumberChar_of_isDigit {c : Char} (h : c.isDigit = true) : isNumberChar c = true := by
  simp [isNumberChar, h]

theorem IsSign.isNumberChar (h : IsSign t) : ∀ c ∈ t, isNumberChar c = true := by
  rcases h with rfl | rfl | rfl <;> exact List.all_eq_true.1 (by decide)

theorem isNumberChar_of_mem {sign digits fraction exponent : Text} (hsign : IsSign sign)
    (hdigits : IsDigits digits) (hfraction : IsFraction fraction)
    (hexponent : IsExponent exponent) :
    ∀ c ∈ sign ++ digits ++ fraction ++ exponent, isNumberChar c = true := by
  intro c hc
  rcases List.mem_append.1 hc with hc | hc
  · rcases List.mem_append.1 hc with hc | hc
    · rcases List.mem_append.1 hc with hc | hc
      · exact hsign.isNumberChar c hc
      · exact isNumberChar_of_isDigit (hdigits.2 c hc)
    · rcases hfraction with rfl | ⟨ds, rfl, hds⟩
      · cases hc
      · rcases List.mem_cons.1 hc with rfl | hc
        · decide
        · exact isNumberChar_of_isDigit (hds c hc)
  · rcases hexponent with rfl | ⟨e, sign', ds, rfl, he, hsign', hds⟩
    · cases hc
    · rcases List.mem_cons.1 hc with rfl | hc
      · rcases he with rfl | rfl <;> decide
      · rcases List.mem_append.1 hc with hc | hc
        · exact hsign'.isNumberChar c hc
        · exact isNumberChar_of_isDigit (hds.2 c hc)

/-! ### Arguments are read back -/

theorem IsArgument.trim (h : IsArgument t) : Text.trim t = t := by
  cases h with
  | @number sign digits fraction exp hsign hdigits hfraction hexponent =>
      exact Text.trim_of_not_blank fun c hc =>
        isBlankChar_of_isNumberChar (isNumberChar_of_mem hsign hdigits hfraction hexponent c hc)
  | string hq hbody =>
      refine Text.trim_quoted ?_ _
      rcases hq with rfl | rfl <;> decide
  | word hne hword hdigit =>
      exact Text.trim_of_not_blank fun c hc => isBlankChar_of_isWordChar (hword c hc)

/-- **An argument is read back** in front of any stop. -/
theorem typeArg_append (h : IsArgument t) (hrest : Stops rest) :
    typeArg (t ++ rest) = .ok t rest := by
  cases h with
  | @number sign digits fraction exp hsign hdigits hfraction hexponent =>
      have hends : NumberEnds rest := hrest.head (by decide)
      exact orElse_of_ok (number_append hsign hdigits hfraction hexponent hends) _
  | @string q body hq hbody =>
      have hne : q ∉ stops := by
        rcases hq with rfl | rfl <;> decide
      have hnumber : number.Refuses (q :: (body ++ [q]) ++ rest) := by
        rcases hq with rfl | rfl <;> exact refuses_number (by decide) (by decide) _
      have hstring := quotedString_append hq (Text.splitAtQuote?_append hbody (hrest.head_ne hne))
      rw [typeArg, firstOf_cons_cons, hnumber.orElse_apply, firstOf_cons_cons]
      exact orElse_of_ok (matched_of_ok hstring) _
  | word hne hword hdigit =>
      cases t with
      | nil => exact absurd rfl hne
      | cons c u =>
          have hc := hword c List.mem_cons_self
          have hsign : c ≠ '+' ∧ c ≠ '-' := by
            constructor <;> rintro rfl <;> exact absurd hc (by decide)
          have hnumber : number.Refuses (c :: u ++ rest) := refuses_number hsign (hdigit c rfl) _
          have hstring : quotedString.Refuses (c :: u ++ rest) :=
            refuses_quotedString (Text.isNameQuote_of_isWordChar hc) _
          rw [typeArg, firstOf_cons_cons, hnumber.orElse_apply, firstOf_cons_cons,
            hstring.matched.orElse_apply, firstOf_singleton]
          exact span1_append hne hword hrest.wordEnds

theorem IsArgument.solid (h : IsArgument t) (rest : Text) : Solid (t ++ rest) := by
  cases h with
  | @number sign digits fraction exp hsign hdigits hfraction hexponent =>
      obtain ⟨hne, hdigit⟩ := hdigits
      cases digits with
      | nil => exact absurd rfl hne
      | cons d ds =>
          have hd := hdigit d List.mem_cons_self
          rcases hsign with rfl | rfl | rfl
          · exact solid_of_head (isGapStart_of_isDigit hd) _
          · exact solid_of_head (by decide) _
          · refine solid_dash fun c hc => ?_
            cases hc
            rintro rfl
            exact absurd hd (by decide)
  | string hq hbody =>
      rcases hq with rfl | rfl <;> exact solid_of_head (by decide) _
  | word hne hword hdigit =>
      cases t with
      | nil => exact absurd rfl hne
      | cons c u => exact solid_of_head (isGapStart_of_isWordChar (hword c List.mem_cons_self)) _

/-- The rule for the arguments of a type. -/
def typeArgList : Rule (Option (List Text)) :=
  Rule.optional (gap0 *> parenthesized (commaList typeArg))

/-- **The arguments of a type are read back**, where they are followed by something other than a
parenthesis. -/
theorem typeArgs_append {args : List Text} (hargs : ∀ a ∈ args, IsArgument a)
    (hrest : NoCall rest) :
    ∃ o, typeArgList (Generator.typeArgs args ++ rest) = .ok o rest ∧ o.getD [] = args := by
  cases args with
  | nil =>
      obtain ⟨c, u, hgap, hc⟩ := hrest
      have hrefuses : (gap0 *> parenthesized (commaList typeArg)).Refuses rest :=
        refuses_bind_of_ok hgap ((refuses_char hc).bind _)
      exact ⟨none, hrefuses.optional, rfl⟩
  | cons a as =>
      have hinner := commaList_append (fun t ht _ h => typeArg_append (hargs t ht) h.stops)
        (fun t ht => (hargs t ht).solid) rest
      have hsolid : Solid (Text.joinWith [',', ' '] (a :: as) ++ ')' :: rest) := by
        rw [Text.joinWith_cons, List.append_assoc]
        exact (hargs a List.mem_cons_self).solid _
      have hshape : Generator.typeArgs (a :: as) ++ rest =
          '(' :: (Text.joinWith [',', ' '] (a :: as) ++ ')' :: rest) := by
        simp [Generator.typeArgs]
      have hparens := parenthesized_append [] [] (by simp) hsolid hinner (by simp)
      rw [hshape]
      exact ⟨some (a :: as),
        optional_of_ok ((bind_of_ok (gap0_cons (by decide) _) _).trans hparens), rfl⟩

end SchemaDelta.Source
