/-
**Strings and numbers of bits as defaults.**

A string that is written as a default is read back, whatever its characters are, in front of every
text that does not start with the quote: there the quote would go on with the string.  A number of
bits is read back in front of every text.  Conversely the digits of a number of bits that was read
are binary ones, there are 64 of them at most, and so they have a value.

Main results:

* `SchemaDelta.Source.exists_defaultValue_quoteString_iff` — **a string survives writing and
  reading** exactly where no quote follows;
* `SchemaDelta.Source.IsBits.meaning` — digits of a number of bits stand for their value;
* `SchemaDelta.Source.bits_of_defaultValue` — what is read as a number of bits;
* `SchemaDelta.Source.isBits_of_readStatements` — the defaults of a text that was read have no other
  digits.
-/

import SchemaDelta.Proofs.Exchange.Lexeme
import SchemaDelta.Proofs.Reading

set_option relaxedAutoImplicit false
set_option autoImplicit false

namespace SchemaDelta.Source

open Rule Lexeme

variable {s digits rest text : Text} {ss : List Statement}

/-! ### Strings -/

theorem quotedString_of_defaultValue {q : Char} {body : Text}
    (h : defaultValue s = .ok (.quoted q body) rest) : quotedString s = .ok (q, body) rest := by
  obtain ⟨p, hp, h⟩ := exists_of_firstOf_eq_ok h
  simp only [List.mem_cons, List.not_mem_nil, or_false] at hp
  rcases hp with rfl | rfl | rfl | rfl
  all_goals
    obtain ⟨a, hread, heq⟩ := map_eq_ok_iff.1 h
    cases heq
  exact hread

/-- **A string survives writing and reading** exactly where no quote follows it. -/
theorem exists_defaultValue_quoteString_iff (v following : Text) :
    (∃ body, defaultValue (Generator.mysql.quoteString v ++ following) =
        .ok (.quoted singleQuote body) following ∧ Text.unescape singleQuote body = v) ↔
      following.head? ≠ some singleQuote := by
  constructor
  · rintro ⟨body, hread, -⟩ hquote
    obtain ⟨-, -, hsplit⟩ := quotedString_eq_ok (quotedString_of_defaultValue hread)
    exact Text.head_of_splitAtQuote? hsplit singleQuote hquote rfl
  · intro hquote
    refine ⟨Text.escape v, defaultValue_text v ?_, Text.unescape_escape v⟩
    rintro c hc rfl
    exact hquote hc

/-! ### Numbers of bits -/

theorem bitLiteral_of_defaultValue (h : defaultValue s = .ok (.bits digits) rest) :
    bitLiteral s = .ok digits rest := by
  obtain ⟨p, hp, h⟩ := exists_of_firstOf_eq_ok h
  simp only [List.mem_cons, List.not_mem_nil, or_false] at hp
  rcases hp with rfl | rfl | rfl | rfl
  all_goals
    obtain ⟨a, hread, heq⟩ := map_eq_ok_iff.1 h
    cases heq
  exact hread

/-- The digits of a number of bits stand for their value, which fits. -/
theorem IsBits.meaning (h : IsBits digits) :
    bitValue digits < Nat.pow 2 64 ∧ ∃ v : UInt64, v.toNat = bitValue digits ∧
      (DefaultValue.bits digits).meaning = .bits v := by
  have hlt : bitValue digits < Nat.pow 2 64 :=
    Nat.lt_of_lt_of_le (bitValue_lt digits) (Nat.pow_le_pow_right (by decide) h.length_le)
  refine ⟨hlt, UInt64.ofNat (bitValue digits), UInt64.toNat_ofNat_of_lt hlt, ?_⟩
  rw [DefaultValue.meaning, h.bits?_eq_some]

/-- **What is read as a number of bits** is written with its letter and its quotes, and has digits
that stand for it. -/
theorem bits_of_defaultValue (h : defaultValue s = .ok (.bits digits) rest) :
    (∃ b, (b = 'b' ∨ b = 'B') ∧ s = b :: singleQuote :: (digits ++ singleQuote :: rest)) ∧
      IsBits digits := by
  obtain ⟨b, hb, hs, hdigits⟩ := bitLiteral_eq_ok_iff.1 (bitLiteral_of_defaultValue h)
  exact ⟨⟨b, hb, hs⟩, hdigits⟩

/-- What every qualifier has in common the qualifiers of the columns of a text have in common. -/
theorem forall_qualifier_of_readStatements {P : Qualifier → Prop} (hP : fieldQualifier.Yields P)
    (h : readStatements text = .ok ss) {T : Table} (hT : .createTable T ∈ ss) {f : Field}
    (hf : .field f ∈ T.definitions) : ∀ q ∈ f.qualifiers, P q := by
  have hfield : fieldDefinition.Yields fun f => ∀ q ∈ f.qualifiers, P q :=
    yields_bind fun _ => yields_bind fun _ => yields_bind fun _ => yields_bind fun _ =>
      yields_bind fun _ => (yields_many (yields_bind fun _ => hP)).bind fun qs hqs => yields_pure hqs
  have hdefinition : createDefinition.Yields
      fun D => ∀ f, D = .field f → ∀ q ∈ f.qualifiers, P q := by
    refine yields_firstOf fun p hp => ?_
    simp only [List.mem_cons, List.not_mem_nil, or_false] at hp
    rcases hp with rfl | rfl | rfl
    · exact (yields_true _).map fun _ _ _ => nofun
    · exact (yields_true _).map fun _ _ _ => nofun
    · refine (hfield.within _).map fun f hf g hg => ?_
      cases hg
      exact hf
  have hparens : (parenthesized createDefinitions).Yields
      fun Ds => ∀ D ∈ Ds, ∀ f, D = .field f → ∀ q ∈ f.qualifiers, P q :=
    yields_bind fun _ => yields_bind fun _ =>
      (yields_sepBy1 hdefinition.commit).bind fun Ds hDs =>
        yields_bind fun _ => yields_bind fun _ => yields_pure hDs.2
  have htable : createTable.Yields
      fun T => ∀ D ∈ T.definitions, ∀ f, D = .field f → ∀ q ∈ f.qualifiers, P q := by
    have hbody : tableBody.Yields
        fun body => ∀ D ∈ body.2.1, ∀ f, D = .field f → ∀ q ∈ f.qualifiers, P q :=
      yields_bind fun _ => yields_bind fun _ => (hparens.within _).bind fun Ds hDs =>
        yields_bind fun _ => yields_bind fun _ => yields_pure hDs
    exact yields_bind fun start => ((hbody.within _).commit).bind fun body hbody =>
      yields_pure hbody
  have hstatement : Rule.Yields statement fun st => ∀ T, st = .createTable T →
      ∀ D ∈ T.definitions, ∀ f, D = .field f → ∀ q ∈ f.qualifiers, P q := by
    rintro s st rest hst T rfl
    exact htable s T rest (createTable_of_statement hst)
  exact forall_of_readStatements hstatement h _ hT T rfl _ hf f rfl

/-- The defaults of a text that was read have no other digits. -/
theorem isBits_of_readStatements (h : readStatements text = .ok ss) {T : Table}
    (hT : .createTable T ∈ ss) {f : Field} (hf : .field f ∈ T.definitions)
    (hq : .default (.bits digits) ∈ f.qualifiers) : IsBits digits := by
  have hyields : fieldQualifier.Yields fun q => ∀ digits, q = .default (.bits digits) →
      IsBits digits := by
    refine yields_firstOf fun p hp => ?_
    simp only [fieldQualifiers, List.mem_cons, List.not_mem_nil, or_false] at hp
    have hclause : defaultClause.Yields fun v => ∀ digits, v = .bits digits → IsBits digits := by
      refine yields_bind fun _ => yields_bind fun _ => Yields.within ?_ _
      rintro s v rest hread digits rfl
      exact (bits_of_defaultValue hread).2
    have hother : ∀ {α : Type} {p : Rule α} {f : α → Qualifier}, (∀ a v, f a ≠ .default v) →
        (f <$> p).Yields fun q => ∀ digits, q = .default (.bits digits) → IsBits digits :=
      fun hf => (yields_true _).map fun a _ digits heq => absurd heq (hf a _)
    rcases hp with rfl | rfl | rfl | rfl | rfl | rfl | rfl | rfl | rfl | rfl | rfl | rfl
    -- the ninth qualifier is the default, and none of the others is one
    rotate_left 8
    · refine hclause.map fun v hv digits hdigits => hv digits ?_
      cases hdigits
      rfl
    all_goals exact hother (by rintro _ _ ⟨⟩)
  exact forall_qualifier_of_readStatements hyields h hT hf _ hq digits rfl

end SchemaDelta.Source
