/-
**Which names survive their quotes.**

A name is written between two backticks, and a backtick inside of it is written twice.  Where names
are read, nothing is known of doubled quotes: a name ends at the first backtick behind the one that
opens it.  So what is read back is the part of the name in front of its first backtick, and a name
is read back as a whole exactly when it has none.

A name with a backtick can be read all the same, from between quotes of the other two kinds.

Main definitions:

* `SchemaDelta.Text.IsName` — the names that some text is read as.

Main results:

* `SchemaDelta.Text.isName_iff` — these are the names that lack one of the three quotes;
* `SchemaDelta.Lexeme.unquote_of_identifier_quoteIdentifier` — what is read from a written name is
  the part in front of its first backtick;
* `SchemaDelta.Lexeme.identifier_quoteIdentifier_iff` — **a name is read back exactly when it has no
  backtick**, whatever follows.
-/

import SchemaDelta.Proofs.Quoted

set_option relaxedAutoImplicit false
set_option autoImplicit false

namespace SchemaDelta

/-! ### Names that can be read -/

namespace Text

/-- Some text is read as the name, in quotes or as a word. -/
def IsName (name : Text) : Prop :=
  ∃ s written rest, Lexeme.identifier s = .ok written rest ∧ unquote written = name

variable {name : Text} {q : Char}

theorem mem_quotes_of_isNameQuote (h : isNameQuote q = true) :
    q = backtick ∨ q = singleQuote ∨ q = doubleQuote := by
  simpa [isNameQuote, or_assoc] using h

/-- A name is read from between quotes that it does not contain. -/
theorem isName_of_not_mem (hq : isNameQuote q = true) (hne : name ≠ []) (hlacks : q ∉ name) :
    name.IsName := by
  refine ⟨q :: (name ++ [q]) ++ [], q :: (name ++ [q]), [], ?_, unquote_between hq hne⟩
  have hread := Lexeme.namedBetween_append hne hlacks []
  -- the rules for the quotes before the right one refuse at the first character
  have hbefore : ∀ qs : List Char, q ∉ qs → ∀ p ∈ qs.map Lexeme.namedBetween,
      p.Refuses (q :: (name ++ [q]) ++ []) := by
    intro qs hqs p hp
    obtain ⟨c, hc, rfl⟩ := List.mem_map.1 hp
    have hcq : q ≠ c := fun heq => hqs (heq.symm ▸ hc)
    exact (Rule.refuses_char hcq).bind _
  refine Rule.orElse_of_ok (Rule.matched_of_ok (a := ()) ?_) _
  rcases mem_quotes_of_isNameQuote hq with rfl | rfl | rfl
  · exact Rule.orElse_of_ok hread _
  · exact Rule.firstOf_of_refuses (hbefore [backtick] (by decide)) hread
  · exact Rule.firstOf_of_refuses (hbefore [backtick, singleQuote] (by decide)) hread

/-- **The names that can be read** are those that lack one of the quotes, words among them. -/
theorem isName_iff : name.IsName ↔ name ≠ [] ∧ ∃ q, isNameQuote q = true ∧ q ∉ name := by
  constructor
  · rintro ⟨s, written, rest, h, rfl⟩
    refine ⟨Lexeme.yields_identifier s written rest h, ?_⟩
    obtain ⟨-, ⟨q, name, hq, hne, hlacks, rfl⟩ | ⟨hne, hword, -⟩⟩ := Lexeme.exists_of_identifier h
    · exact ⟨q, hq, by rwa [unquote_between hq hne]⟩
    · refine ⟨backtick, by decide, fun hmem => ?_⟩
      rw [unquote_word hword] at hmem
      exact absurd (hword backtick hmem) (by decide)
  · rintro ⟨hne, q, hq, hlacks⟩
    exact isName_of_not_mem hq hne hlacks

theorem takeWhile_doubled (t rest : Text) :
    (doubled q t ++ q :: rest).takeWhile (· != q) = t.takeWhile (· != q) := by
  induction t with
  | nil => simp
  | cons c t ih =>
      by_cases hc : c = q
      · simp [hc]
      · simp [hc, ih]

end Text

/-! ### Written names -/

namespace Lexeme

open Rule

variable {name following written rest : Text}

/-- **What is read from a written name** is the part in front of its first backtick. -/
theorem unquote_of_identifier_quoteIdentifier
    (h : identifier (Generator.mysql.quoteIdentifier name ++ following) = .ok written rest) :
    Text.unquote written = name.takeWhile (· != backtick) := by
  have hshape : Generator.mysql.quoteIdentifier name ++ following =
      backtick :: (Text.doubled backtick name ++ backtick :: following) := by
    simp [Generator.mysql, Text.quotedWith]
  obtain ⟨happend, ⟨q, front, hq, hne, hlacks, rfl⟩ | ⟨hne, hword, -⟩⟩ := exists_of_identifier h
  · rw [hshape, List.cons_append, List.cons.injEq, List.append_assoc] at happend
    obtain ⟨rfl, happend⟩ := happend
    have htake := congrArg (List.takeWhile (· != backtick)) happend
    rw [Text.takeWhile_doubled, List.takeWhile_append_of_pos] at htake
    · simpa [Text.unquote_between hq hne] using htake.symm
    · intro c hc
      rw [bne_iff_ne]
      rintro rfl
      exact hlacks hc
  · -- no word starts with a backtick
    obtain ⟨c, t, rfl⟩ := List.exists_cons_of_ne_nil hne
    rw [hshape, List.cons_append, List.cons.injEq] at happend
    obtain ⟨rfl, -⟩ := happend
    exact absurd (hword backtick List.mem_cons_self) (by decide)

/-- **A name is read back from its quotes exactly when it has no backtick**, whatever follows. -/
theorem identifier_quoteIdentifier_iff (hname : name.IsName) (following : Text) :
    (identifier (Generator.mysql.quoteIdentifier name ++ following) =
        .ok (Generator.mysql.quoteIdentifier name) following ∧
      Text.unquote (Generator.mysql.quoteIdentifier name) = name) ↔ backtick ∉ name := by
  constructor
  · rintro ⟨hread, hunquote⟩ hmem
    have hfront := unquote_of_identifier_quoteIdentifier hread
    rw [hunquote, eq_comm, List.takeWhile_eq_self_iff] at hfront
    exact absurd (hfront backtick hmem) (by simp)
  · intro hlacks
    have hne : name ≠ [] := (Text.isName_iff.1 hname).1
    exact ⟨identifier_quotedWith hne hlacks following, Text.unquote_quotedWith hne hlacks⟩

/-- A name with a space at its end, a quote and a line feed in it. -/
theorem identifier_quoteIdentifier_spaced :
    let name : Text := "it's\na ".toList
    name.IsName ∧
      identifier (Generator.mysql.quoteIdentifier name ++ [',']) =
        .ok (Generator.mysql.quoteIdentifier name) [','] ∧
      Text.unquote (Generator.mysql.quoteIdentifier name) = name := by
  intro name
  have hname : name.IsName := ⟨"\"it's\na \"".toList, _, _, rfl, by decide⟩
  exact ⟨hname, (identifier_quoteIdentifier_iff hname [',']).2 (by decide)⟩

/-- A name between single quotes may have a backtick, and is cut off there when it is read back. -/
theorem exists_identifier_quoteIdentifier_ne :
    ∃ s written name following, identifier s = .ok written [] ∧ Text.unquote written = name ∧
      following.head? ≠ some backtick ∧
      identifier (Generator.mysql.quoteIdentifier name ++ following) ≠
        .ok (Generator.mysql.quoteIdentifier name) following := by
  refine ⟨"'a`b'".toList, _, "a`b".toList, [','], rfl, by decide, by decide, ?_⟩
  decide

end Lexeme

end SchemaDelta
