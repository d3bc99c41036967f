/-
**The units of strings.**

The body of a string consists of units: a backslash with the character behind it, a quote that is
written twice, or a character that is neither a backslash nor the quote.  Two functions go over such
a body, each with one character of look-ahead: one finds the closing quote, the other resolves the
escapes.  Both cut it into the same units.

What the second one does at a time is called a turn here.  Besides the turns for the three kinds of
unit there are two for texts that are no bodies: a backslash that nothing follows, and a quote that
no other one follows.  They are never taken inside of a string that was read.

Main definitions:

* `SchemaDelta.Text.StringUnit`, `SchemaDelta.Text.StringUnit.texts`,
  `SchemaDelta.Text.StringUnit.values` — units, what is written for them, and what they stand for;
* `SchemaDelta.Text.Turn`, `SchemaDelta.Text.turns` — what is done at a time when escapes are
  resolved.

Main results:

* `SchemaDelta.Text.splitAtQuote?_eq_some_iff` — **the body of a string is a row of units** in front
  of a quote that no other one follows, and every such row is a body;
* `SchemaDelta.Text.unescape_eq_flatMap_turns`, `SchemaDelta.Text.flatMap_text_turns` — turns cover
  the text and give what it stands for;
* `SchemaDelta.Text.turns_texts` — **each unit is one turn**;
* `SchemaDelta.Lexeme.quotedBody_units` — **the closing quote and the escapes are found by the same
  units**.
-/

import SchemaDelta.Proofs.Exchange.Lexeme

set_option relaxedAutoImplicit false
set_option autoImplicit false

namespace SchemaDelta

namespace Text

/-! ### Units -/

/-- A piece of the body of a string that stands between two of the given quotes. -/
inductive StringUnit (q : Char) where
  /-- A backslash with the character behind it. -/
  | escape (c : Char)
  /-- The quote, written twice. -/
  | doubled
  /-- A character that stands for itself. -/
  | plain (c : Char) (hslash : c ≠ '\\') (hquote : c ≠ q)

namespace StringUnit

variable {q : Char}

/-- What is written for a unit. -/
def text : StringUnit q → Text
  | .escape c => ['\\', c]
  | .doubled => [q, q]
  | .plain c _ _ => [c]

/-- What a unit stands for. -/
def value : StringUnit q → Text
  | .escape c => escaped c
  | .doubled => [q]
  | .plain c _ _ => [c]

/-- What is written for a row of units. -/
def texts (us : List (StringUnit q)) : Text :=
  us.flatMap text

/-- What a row of units stands for. -/
def values (us : List (StringUnit q)) : Text :=
  us.flatMap value

@[simp] theorem texts_nil : texts ([] : List (StringUnit q)) = [] := rfl

@[simp] theorem texts_escape (c : Char) (us : List (StringUnit q)) :
    texts (.escape c :: us) = '\\' :: c :: texts us := rfl

@[simp] theorem texts_doubled (us : List (StringUnit q)) :
    texts (.doubled :: us) = q :: q :: texts us := rfl

@[simp] theorem texts_plain {c : Char} (hslash : c ≠ '\\') (hquote : c ≠ q)
    (us : List (StringUnit q)) : texts (.plain c hslash hquote :: us) = c :: texts us := rfl

end StringUnit

/-! ### Where a row of units ends -/

variable {q : Char} {t body rest : Text}

/-- A row of units is passed over up to the quote behind it. -/
theorem splitAtQuote?_texts (hq : q ≠ '\\') (us : List (StringUnit q))
    (hrest : ∀ c ∈ rest.head?, c ≠ q) :
    splitAtQuote? q (StringUnit.texts us ++ q :: rest) = some (StringUnit.texts us, rest) := by
  induction us with
  | nil => exact splitAtQuote?_close hq hrest
  | cons u us ih =>
      cases u with
      | escape c =>
          rw [StringUnit.texts_escape, List.cons_append, List.cons_append, splitAtQuote?,
            if_pos rfl, ih]
          rfl
      | doubled =>
          rw [StringUnit.texts_doubled, List.cons_append, List.cons_append, splitAtQuote?,
            if_neg hq, if_pos rfl, if_pos rfl, ih]
          rfl
      | plain c hslash hquote =>
          rw [StringUnit.texts_plain, List.cons_append,
            splitAtQuote?_cons_of_ne hslash hquote (by simp), ih]
          rfl

/-- What is passed over is a row of units. -/
theorem exists_units_of_splitAtQuote? (h : splitAtQuote? q t = some (body, rest)) :
    ∃ us : List (StringUnit q), body = StringUnit.texts us := by
  fun_induction splitAtQuote? q t generalizing body rest with
  | case1 => cases h
  | case2 => cases h
  | case3 =>
      cases h
      exact ⟨[], rfl⟩
  | case4 => cases h
  | case5 d t ih =>
      obtain ⟨p, hp, heq⟩ := Option.map_eq_some_iff.1 h
      cases heq
      obtain ⟨us, hus⟩ := ih hp
      exact ⟨.escape d :: us, by rw [hus]; rfl⟩
  | case6 t _ ih =>
      obtain ⟨p, hp, heq⟩ := Option.map_eq_some_iff.1 h
      cases heq
      obtain ⟨us, hus⟩ := ih hp
      exact ⟨.doubled :: us, by rw [hus]; rfl⟩
  | case7 =>
      cases h
      exact ⟨[], rfl⟩
  | case8 c d t hslash hquote ih =>
      obtain ⟨p, hp, heq⟩ := Option.map_eq_some_iff.1 h
      cases heq
      obtain ⟨us, hus⟩ := ih hp
      exact ⟨.plain c hslash hquote :: us, by rw [hus]; rfl⟩

/-- **The body of a string is a row of units** in front of a quote that no other one follows, and
every such row is a body. -/
theorem splitAtQuote?_eq_some_iff (hq : q ≠ '\\') :
    splitAtQuote? q t = some (body, rest) ↔
      t = body ++ q :: rest ∧ rest.head? ≠ some q ∧
        ∃ us : List (StringUnit q), body = StringUnit.texts us := by
  constructor
  · intro h
    refine ⟨(append_of_splitAtQuote? h).symm, fun hhead => ?_, exists_units_of_splitAtQuote? h⟩
    exact head_of_splitAtQuote? h q hhead rfl
  · rintro ⟨rfl, hrest, us, rfl⟩
    refine splitAtQuote?_texts hq us ?_
    rintro c hc rfl
    exact hrest hc

/-! ### Turns -/

/-- What is done at a time when the escapes of a text are resolved. -/
inductive Turn where
  /-- A backslash and the character behind it are resolved. -/
  | resolve (c : Char)
  /-- One of two quotes is left out. -/
  | single
  /-- A character is copied. -/
  | copy (c : Char)
  /-- A backslash at the end of the text is kept. -/
  | dangling
  deriving Repr, DecidableEq

/-- The text that a turn goes over. -/
def Turn.text (q : Char) : Turn → Text
  | .resolve c => ['\\', c]
  | .single => [q, q]
  | .copy c => [c]
  | .dangling => ['\\']

/-- The text that a turn gives. -/
def Turn.value (q : Char) : Turn → Text
  | .resolve c => escaped c
  | .single => [q]
  | .copy c => [c]
  | .dangling => ['\\']

/-- The turns in which the escapes of a text are resolved. -/
def turns (q : Char) : Text → List Turn
  | [] => []
  | [c] => if c = '\\' then [.dangling] else [.copy c]
  | c :: d :: t =>
    if c = '\\' then .resolve d :: turns q t
    else if c = q ∧ d = q then .single :: turns q t
    else .copy c :: turns q (d :: t)

/-- The turn for a unit. -/
def StringUnit.turn : StringUnit q → Turn
  | .escape c => .resolve c
  | .doubled => .single
  | .plain c _ _ => .copy c

@[simp] theorem StringUnit.value_turn (u : StringUnit q) : u.turn.value q = u.value := by
  cases u <;> rfl

/-- No unit is a quote by itself. -/
theorem StringUnit.turn_ne_copy (u : StringUnit q) : u.turn ≠ .copy q := by
  intro h
  cases u with
  | escape => cases h
  | doubled => cases h
  | plain c hslash hquote => exact hquote (Turn.copy.inj h)

/-- No unit is a backslash at the end. -/
theorem StringUnit.turn_ne_dangling (u : StringUnit q) : u.turn ≠ .dangling := by
  cases u <;> exact nofun

/-- A text stands for what its turns give one after the other. -/
theorem unescape_eq_flatMap_turns (q : Char) (t : Text) :
    unescape q t = (turns q t).flatMap (Turn.value q) := by
  fun_induction turns q t with
  | case1 => rfl
  | case2 => rfl
  | case3 => rfl
  | case4 d t ih => rw [unescape, if_pos rfl, ih, List.flatMap_cons, Turn.value]
  | case5 c d t hslash hquote ih =>
      rw [unescape, if_neg hslash, if_pos hquote, ih, List.flatMap_cons, Turn.value,
        List.singleton_append]
  | case6 c d t hslash hquote ih =>
      rw [unescape, if_neg hslash, if_neg hquote, ih, List.flatMap_cons, Turn.value,
        List.singleton_append]

/-- The turns go over the whole text. -/
theorem flatMap_text_turns (q : Char) (t : Text) : (turns q t).flatMap (Turn.text q) = t := by
  fun_induction turns q t with
  | case1 => rfl
  | case2 => rfl
  | case3 => rfl
  | case4 d t ih => rw [List.flatMap_cons, ih]; rfl
  | case5 c d t hslash hquote ih =>
      obtain ⟨rfl, rfl⟩ := hquote
      rw [List.flatMap_cons, ih]
      rfl
  | case6 c d t hslash hquote ih => rw [List.flatMap_cons, ih]; rfl

theorem turns_cons_of_ne {c : Char} (hslash : c ≠ '\\') (hquote : c ≠ q) (t : Text) :
    turns q (c :: t) = .copy c :: turns q t := by
  cases t with
  | nil => simp [turns, hslash]
  | cons d t => rw [turns, if_neg hslash, if_neg fun h => hquote h.1]

/-- **Each unit is one turn.** -/
theorem turns_texts (hq : q ≠ '\\') (us : List (StringUnit q)) :
    turns q (StringUnit.texts us) = us.map StringUnit.turn := by
  induction us with
  | nil => rfl
  | cons u us ih =>
      cases u with
      | escape c =>
          rw [StringUnit.texts_escape, turns, if_pos rfl, ih]
          rfl
      | doubled =>
          rw [StringUnit.texts_doubled, turns, if_neg hq, if_pos ⟨rfl, rfl⟩, ih]
          rfl
      | plain c hslash hquote =>
          rw [StringUnit.texts_plain, turns_cons_of_ne hslash hquote, ih]
          rfl

/-- A text in which no backslash is left over and no quote is copied is a row of units. -/
theorem exists_units_of_turns (hdangling : Turn.dangling ∉ turns q t)
    (hcopy : Turn.copy q ∉ turns q t) : ∃ us : List (StringUnit q), t = StringUnit.texts us := by
  fun_induction turns q t with
  | case1 => exact ⟨[], rfl⟩
  | case2 => exact absurd List.mem_cons_self hdangling
  | case3 c hslash =>
      have hquote : c ≠ q := by
        rintro rfl
        exact hcopy List.mem_cons_self
      exact ⟨[.plain c hslash hquote], rfl⟩
  | case4 d t ih =>
      rw [List.mem_cons, not_or] at hdangling hcopy
      obtain ⟨us, rfl⟩ := ih hdangling.2 hcopy.2
      exact ⟨.escape d :: us, rfl⟩
  | case5 c d t hslash hboth ih =>
      rw [List.mem_cons, not_or] at hdangling hcopy
      obtain ⟨us, rfl⟩ := ih hdangling.2 hcopy.2
      obtain ⟨rfl, rfl⟩ := hboth
      exact ⟨.doubled :: us, rfl⟩
  | case6 c d t hslash hboth ih =>
      rw [List.mem_cons, not_or] at hdangling hcopy
      obtain ⟨us, hus⟩ := ih hdangling.2 hcopy.2
      have hquote : c ≠ q := fun heq => hcopy.1 (congrArg Turn.copy heq.symm)
      exact ⟨.plain c hslash hquote :: us, by rw [hus]; rfl⟩

theorem unescape_texts (hq : q ≠ '\\') (us : List (StringUnit q)) :
    unescape q (StringUnit.texts us) = StringUnit.values us := by
  rw [unescape_eq_flatMap_turns, turns_texts hq, List.flatMap_map, StringUnit.values]
  simp

end Text

namespace Lexeme

open Rule Text

variable {q : Char}

theorem quotedBody_eq_ok_iff {s body rest : Text} :
    quotedBody q s = .ok body rest ↔
      ∃ t, s = q :: t ∧ splitAtQuote? q t = some (body, rest) := by
  constructor
  · intro h
    obtain ⟨hs, hsplit⟩ := quotedBody_eq_ok h
    exact ⟨body ++ q :: rest, by simpa using hs, hsplit⟩
  · rintro ⟨t, rfl, hsplit⟩
    rw [quotedBody, if_pos rfl, hsplit]

/-- **The closing quote and the escapes are found by the same units.**  A string is read exactly
where a row of units stands between two quotes, the second of which no other one follows.  Escapes
are resolved turn by turn, and each of the units is one turn.  In such a row no backslash is left
over at the end and no quote is copied by itself, and in every other text one of the two happens. -/
theorem quotedBody_units (hq : q ≠ '\\') :
    (∀ s body rest : Text, quotedBody q s = .ok body rest ↔
      s = q :: (body ++ q :: rest) ∧ rest.head? ≠ some q ∧
        ∃ us : List (StringUnit q), body = StringUnit.texts us) ∧
    (∀ body : Text, (turns q body).flatMap (Turn.text q) = body ∧
      unescape q body = (turns q body).flatMap (Turn.value q)) ∧
    (∀ us : List (StringUnit q),
      turns q (StringUnit.texts us) = us.map StringUnit.turn ∧
        unescape q (StringUnit.texts us) = StringUnit.values us) ∧
    ∀ body : Text, (∃ us : List (StringUnit q), body = StringUnit.texts us) ↔
      Turn.dangling ∉ turns q body ∧ Turn.copy q ∉ turns q body := by
  refine ⟨fun s body rest => ?_,
    fun body => ⟨flatMap_text_turns q body, unescape_eq_flatMap_turns q body⟩,
    fun us => ⟨turns_texts hq us, unescape_texts hq us⟩,
    fun body => ⟨?_, fun h => exists_units_of_turns h.1 h.2⟩⟩
  · rw [quotedBody_eq_ok_iff]
    constructor
    · rintro ⟨t, rfl, hsplit⟩
      obtain ⟨rfl, hrest, hus⟩ := (splitAtQuote?_eq_some_iff hq).1 hsplit
      exact ⟨rfl, hrest, hus⟩
    · rintro ⟨rfl, hrest, hus⟩
      exact ⟨_, rfl, (splitAtQuote?_eq_some_iff hq).2 ⟨rfl, hrest, hus⟩⟩
  · rintro ⟨us, rfl⟩
    rw [turns_texts hq, List.mem_map, List.mem_map]
    constructor
    · rintro ⟨u, -, hu⟩
      exact u.turn_ne_dangling hu
    · rintro ⟨u, -, hu⟩
      exact u.turn_ne_copy hu

/-- A string with both ways to write its quote, an escape for a line feed, and one that is kept. -/
theorem quotedBody_units_single :
    singleQuote ≠ '\\' ∧
      quotedBody singleQuote "'it\\'s\\n\\% ''q''', x".toList =
        .ok "it\\'s\\n\\% ''q''".toList ", x".toList ∧
      unescape singleQuote "it\\'s\\n\\% ''q''".toList = "it's\n\\% 'q'".toList ∧
      Turn.dangling ∉ turns singleQuote "it\\'s\\n\\% ''q''".toList := by
  have hq : singleQuote ≠ '\\' := by decide
  obtain ⟨hread, -, hturns, hnone⟩ := quotedBody_units hq
  let us : List (StringUnit singleQuote) :=
    [.plain 'i' (by decide) (by decide), .plain 't' (by decide) (by decide), .escape singleQuote,
      .plain 's' (by decide) (by decide), .escape 'n', .escape '%',
      .plain ' ' (by decide) (by decide), .doubled, .plain 'q' (by decide) (by decide), .doubled]
  exact ⟨hq, (hread _ _ _).2 ⟨rfl, by decide, us, rfl⟩, (hturns us).2, ((hnone _).1 ⟨us, rfl⟩).1⟩

end Lexeme

end SchemaDelta
