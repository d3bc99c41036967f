/-
**Rules that do not tell capitals from small letters.**

Capitals of ASCII are put into lower case, and every other character is left alone.  A rule is
caseless when it does on the text in lower case what it does on the text itself: it reads the same
value with its texts in lower case and leaves the same rest in lower case, or it gives up at the
same place.  That goes through every way of putting rules together, so that it has to be looked at
for the characters only: no class of characters that the schema language uses tells a capital from
its small letter, and no mark that it looks for is a letter.

Main definitions:

* `SchemaDelta.Text.lowered` — a text with its capitals of ASCII in lower case;
* `SchemaDelta.Outcome.lowered` — the outcome of a rule, put into lower case;
* `SchemaDelta.Rule.Mirrors`, `SchemaDelta.Rule.Caseless` — a rule does on the text in lower case
  what another one, or it itself, does on the text.

Main results:

* `SchemaDelta.Rule.Mirrors.bind`, `SchemaDelta.Rule.Caseless.many` and their companions — **what is
  put together from caseless rules is caseless**;
* `SchemaDelta.Lexeme.caseless_keyword`, `SchemaDelta.Lexeme.caseless_gap0`,
  `SchemaDelta.Lexeme.caseless_quotedBody`, `SchemaDelta.Lexeme.caseless_verbatim` — the words and
  marks of the schema language are.
-/

import SchemaDelta.Proofs.Letters
import SchemaDelta.Proofs.Rule

set_option relaxedAutoImplicit false
set_option autoImplicit false

namespace SchemaDelta

/-! ### Characters -/

theorem toLower_of_not_ascii {c : Char} (hc : ¬ c.toNat < 128) : c.toLower = c := by
  have hupper : ¬ (c.val ≥ 'A'.val ∧ c.val ≤ 'Z'.val) := by
    rintro ⟨-, hle⟩
    have hnat : c.toNat ≤ 90 := UInt32.le_iff_toNat_le.1 hle
    omega
  exact dif_neg hupper

/-- What does not tell the case of a letter of ASCII does not tell that of any character. -/
theorem apply_toLower {β : Type} {f : Char → β}
    (h : ∀ n : Fin 128, f (Char.ofNat n).toLower = f (Char.ofNat n)) (c : Char) :
    f c.toLower = f c := by
  by_cases hc : c.toNat < 128
  · exact forall_ascii (P := fun c => f c.toLower = f c) h hc
  · rw [toLower_of_not_ascii hc]

theorem isWordChar_lowered (c : Char) : isWordChar c.toLower = isWordChar c :=
  apply_toLower (by decide) c

theorem lowerChar_toLower (c : Char) : lowerChar c.toLower = lowerChar c :=
  apply_toLower (by decide) c

theorem utf8Size_toLower (c : Char) : c.toLower.utf8Size = c.utf8Size :=
  apply_toLower (by decide) c

theorem isBlankChar_toLower (c : Char) : Text.isBlankChar c.toLower = Text.isBlankChar c :=
  apply_toLower (by decide) c

/-- A character that is no letter of ASCII, nor the lower-case form of another one. -/
def IsMark (m : Char) : Prop :=
  ∀ n : Fin 128, (Char.ofNat n).toLower = m ↔ Char.ofNat n = m

instance (m : Char) : Decidable (IsMark m) :=
  inferInstanceAs (Decidable (∀ _ : Fin 128, _ ↔ _))

theorem IsMark.toLower_eq_iff {m : Char} (hm : IsMark m) (c : Char) : c.toLower = m ↔ c = m := by
  by_cases hc : c.toNat < 128
  · exact forall_ascii (P := fun c => c.toLower = m ↔ c = m) hm hc
  · rw [toLower_of_not_ascii hc]

/-! ### Texts -/

namespace Text

/-- A text with its capitals of ASCII in lower case. -/
def lowered (t : Text) : Text :=
  t.map Char.toLower

@[simp] theorem lowered_nil : lowered [] = [] := rfl

@[simp] theorem lowered_cons (c : Char) (t : Text) :
    lowered (c :: t) = c.toLower :: lowered t := rfl

@[simp] theorem length_lowered (t : Text) : t.lowered.length = t.length :=
  List.length_map _

@[simp] theorem byteLength_lowered (t : Text) : t.lowered.byteLength = t.byteLength := by
  induction t with
  | nil => rfl
  | cons c t ih => rw [lowered_cons, byteLength_cons, byteLength_cons, utf8Size_toLower, ih]

theorem lowered_take (n : Nat) (t : Text) : lowered (t.take n) = t.lowered.take n :=
  List.map_take

theorem lowered_drop (n : Nat) (t : Text) : lowered (t.drop n) = t.lowered.drop n :=
  List.map_drop

theorem takeWhile_lowered {f : Char → Bool} (hf : ∀ c, f c.toLower = f c) (t : Text) :
    t.lowered.takeWhile f = lowered (t.takeWhile f) := by
  rw [lowered, List.takeWhile_map, show f ∘ Char.toLower = f from funext hf]
  rfl

theorem dropWhile_lowered {f : Char → Bool} (hf : ∀ c, f c.toLower = f c) (t : Text) :
    t.lowered.dropWhile f = lowered (t.dropWhile f) := by
  rw [lowered, List.dropWhile_map, show f ∘ Char.toLower = f from funext hf]
  rfl

theorem trimStart_lowered (t : Text) : t.lowered.trimStart = lowered t.trimStart :=
  dropWhile_lowered isBlankChar_toLower t

theorem splitAtByte?_lowered (n : Nat) (t : Text) :
    splitAtByte? n t.lowered =
      (splitAtByte? n t).map fun parts => (lowered parts.1, lowered parts.2) := by
  induction t generalizing n with
  | nil => cases n <;> rfl
  | cons c t ih =>
      cases n with
      | zero => rfl
      | succ n =>
          rw [lowered_cons, splitAtByte?, splitAtByte?, utf8Size_toLower, ih]
          split
          · rw [Option.map_map, Option.map_map]
            rfl
          · rfl

theorem agreesWith_lowered (t word : Text) : t.lowered.agreesWith word = t.agreesWith word := by
  induction t generalizing word with
  | nil => rfl
  | cons c t ih =>
      cases word with
      | nil => rfl
      | cons d w => rw [lowered_cons, agreesWith, agreesWith, lowerChar_toLower, ih]

theorem isPrefixOf_lowered {mark : Text} (hmark : ∀ m ∈ mark, IsMark m) (t : Text) :
    mark.isPrefixOf t.lowered = mark.isPrefixOf t := by
  induction mark generalizing t with
  | nil => rw [List.isPrefixOf, List.isPrefixOf]
  | cons m mark ih =>
      cases t with
      | nil => rfl
      | cons c t =>
          have hm : (m == c.toLower) = (m == c) := by
            rw [Bool.eq_iff_iff, beq_iff_eq, beq_iff_eq, eq_comm,
              (hmark m List.mem_cons_self).toLower_eq_iff, eq_comm]
          rw [lowered_cons, List.isPrefixOf, List.isPrefixOf, hm,
            ih (fun m' hm' => hmark m' (List.mem_cons_of_mem m hm'))]

theorem lowered_of_marks {mark : Text} (hmark : ∀ m ∈ mark, IsMark m) : lowered mark = mark := by
  induction mark with
  | nil => rfl
  | cons m mark ih =>
      rw [lowered_cons, ih fun m' hm' => hmark m' (List.mem_cons_of_mem m hm'),
        ((hmark m List.mem_cons_self).toLower_eq_iff m).2 rfl]

/-- Both halves of a text that was cut in two, in lower case. -/
def loweredParts (parts : Text × Text) : Text × Text :=
  (lowered parts.1, lowered parts.2)

theorem splitBefore?_lowered {mark : Text} (hmark : ∀ m ∈ mark, IsMark m) (t : Text) :
    splitBefore? mark t.lowered = (splitBefore? mark t).map loweredParts := by
  induction t with
  | nil =>
      rw [lowered_nil, splitBefore?]
      split <;> rfl
  | cons c t ih =>
      have hprefix : mark.isPrefixOf (c.toLower :: lowered t) = mark.isPrefixOf (c :: t) :=
        isPrefixOf_lowered hmark (c :: t)
      rw [lowered_cons, splitBefore?, splitBefore?, hprefix, ih]
      split
      · rfl
      · rw [Option.map_map, Option.map_map]
        rfl

theorem splitAtQuote?_lowered {quote : Char} (hquote : IsMark quote) (t : Text) :
    splitAtQuote? quote t.lowered = (splitAtQuote? quote t).map loweredParts := by
  have hslash : IsMark '\\' := by decide
  -- by the recursion of the function, whose cases only look for the quote and the backslash
  fun_induction splitAtQuote? quote t with
  | case1 => rfl
  | case2 => simp [splitAtQuote?]
  | case3 hne => simp [splitAtQuote?, hslash.toLower_eq_iff, hquote.toLower_eq_iff, hne, loweredParts]
  | case4 c hne hneq =>
      simp [splitAtQuote?, hslash.toLower_eq_iff, hquote.toLower_eq_iff, hne, hneq]
  | case5 d t ih =>
      simp only [lowered_cons] at ih ⊢
      rw [splitAtQuote?, if_pos ((hslash.toLower_eq_iff _).2 rfl), ih, Option.map_map, Option.map_map]
      rfl
  | case6 t hne ih =>
      simp only [lowered_cons, splitAtQuote?, hslash.toLower_eq_iff, hquote.toLower_eq_iff, hne,
        ↓reduceIte, ih, Option.map_map]
      rfl
  | case7 d t hne hneq =>
      simp [splitAtQuote?, hslash.toLower_eq_iff, hquote.toLower_eq_iff, hne, hneq, loweredParts]
  | case8 c d t hne hneq ih =>
      simp only [lowered_cons] at ih ⊢
      rw [splitAtQuote?, if_neg (mt (hslash.toLower_eq_iff _).1 hne),
        if_neg (mt (hquote.toLower_eq_iff _).1 hneq), ih, Option.map_map, Option.map_map]
      rfl

end Text

/-! ### Outcomes -/

/-- A mismatch at the same place of the text in lower case. -/
def Mismatch.lowered (why : Mismatch) : Mismatch :=
  { why with rest := why.rest.lowered }

/-- The same outcome on the text in lower case, when `g` puts the value into lower case. -/
def Outcome.lowered {α : Type} (g : α → α) : Outcome α → Outcome α
  | .ok a rest => .ok (g a) rest.lowered
  | .mismatch why => .mismatch why.lowered
  | .abort why => .abort why.lowered

namespace Rule

variable {α β : Type} {g : α → α} {h : β → β} {p p' q q' : Rule α}

/-- On the text in lower case the second rule does what the first one does on the text. -/
def Mirrors (g : α → α) (p p' : Rule α) : Prop :=
  ∀ s : Text, p' s.lowered = (p s).lowered g

/-- A rule does on the text in lower case what it does on the text itself. -/
abbrev Caseless (g : α → α) (p : Rule α) : Prop :=
  Mirrors g p p

/-! ### Sequences and choices -/

theorem mirrors_pure {a a' : α} (ha : g a = a') : Mirrors g (pure a) (pure a') := by
  intro s
  rw [pure_apply, pure_apply, ← ha]
  rfl

theorem Mirrors.bind {f f' : α → Rule β} (hp : Mirrors g p p')
    (hf : ∀ a, Mirrors h (f a) (f' (g a))) : Mirrors h (p >>= f) (p' >>= f') := by
  intro s
  rw [bind_apply, bind_apply, hp s]
  cases p s with
  | ok a rest => exact hf a rest
  | mismatch why => rfl
  | abort why => rfl

theorem Mirrors.map {F F' : α → β} (hp : Mirrors g p p') (hF : ∀ a, h (F a) = F' (g a)) :
    Mirrors h (F <$> p) (F' <$> p') :=
  hp.bind fun a => mirrors_pure (hF a)

theorem Caseless.discard (hp : Caseless g p) : Caseless id (Functor.discard p) :=
  hp.map fun _ => rfl

theorem Caseless.orElse (hp : Caseless g p) (hq : Caseless g q) : Caseless g (p <|> q) := by
  intro s
  rw [orElse_apply, orElse_apply, hp s]
  cases p s with
  | ok a rest => rfl
  | mismatch why => exact hq s
  | abort why => rfl

theorem caseless_firstOf {ps : List (Rule α)} (hps : ∀ p ∈ ps, Caseless g p) :
    Caseless g (firstOf ps) := by
  induction ps with
  | nil => exact fun s => rfl
  | cons p ps ih =>
      cases ps with
      | nil => exact hps p List.mem_cons_self
      | cons q ps =>
          rw [firstOf_cons_cons]
          exact (hps p List.mem_cons_self).orElse
            (ih fun r hr => hps r (List.mem_cons_of_mem p hr))

theorem Caseless.optional (hp : Caseless g p) : Caseless (Option.map g) p.optional := by
  intro s
  rw [Rule.optional, Rule.optional, hp s]
  cases p s <;> rfl

theorem Caseless.absent (hp : Caseless g p) : Caseless id p.absent := by
  intro s
  rw [Rule.absent, Rule.absent, hp s]
  cases p s <;> rfl

theorem Caseless.commit (hp : Caseless g p) : Caseless g p.commit := by
  intro s
  rw [Rule.commit, Rule.commit, hp s]
  cases p s <;> rfl

theorem Caseless.within (hp : Caseless g p) (name : Construct) : Caseless g (p.within name) := by
  intro s
  rw [Rule.within, Rule.within, hp s]
  cases p s <;> rfl

/-! ### Repetition and the text that was read -/

theorem Caseless.many (hp : Caseless g p) : Caseless (List.map g) p.many := by
  intro s
  fun_induction Rule.many p s with
  | case1 s a rest hps hlt as last hm ih =>
      have hstep : p s.lowered = .ok (g a) rest.lowered := by rw [hp s, hps]; rfl
      rw [hm] at ih
      exact many_eq_cons hstep (by simpa using hlt) ih
  | case2 s a rest hps hlt why hm ih => exact absurd hm (many_ne_mismatch p rest why)
  | case3 s a rest hps hlt why hm ih =>
      have hstep : p s.lowered = .ok (g a) rest.lowered := by rw [hp s, hps]; rfl
      rw [hm] at ih
      rw [many_of_ok hstep (by simpa using hlt)]
      exact bind_of_abort ih _
  | case4 s a rest hps hnot =>
      have hstep : p s.lowered = .ok (g a) rest.lowered := by rw [hp s, hps]; rfl
      exact many_of_not_lt hstep (by simpa using hnot)
  | case5 s why hps =>
      have hstep : p s.lowered = .mismatch why.lowered := by rw [hp s, hps]; rfl
      exact many_of_mismatch hstep
  | case6 s why hps =>
      have hstep : p s.lowered = .abort why.lowered := by rw [hp s, hps]; rfl
      exact many_of_abort hstep

theorem Caseless.many1 (hp : Caseless g p) : Caseless (List.map g) p.many1 :=
  hp.bind fun _ => hp.many.bind fun _ => mirrors_pure rfl

theorem Caseless.sepBy1 {sep : Rule β} (hsep : Caseless h sep) (hp : Caseless g p) :
    Caseless (List.map g) (Rule.sepBy1 sep p) :=
  hp.bind fun _ => Caseless.many (hsep.bind fun _ => hp) |>.bind fun _ => mirrors_pure rfl

theorem Caseless.matched (hp : Caseless g p) : Caseless Text.lowered p.matched := by
  intro s
  rw [Rule.matched, Rule.matched, hp s]
  cases p s with
  | ok a rest =>
      simp only [Outcome.lowered, Text.length_lowered, Text.lowered_take]
  | mismatch why => rfl
  | abort why => rfl

/-! ### Characters -/

variable {f : Char → Bool}

theorem caseless_satisfy (hf : ∀ c, f c.toLower = f c) : Caseless Char.toLower (satisfy f) := by
  intro s
  cases s with
  | nil => rfl
  | cons c t =>
      rw [Text.lowered_cons, satisfy, satisfy, hf]
      split <;> rfl

theorem caseless_char {m : Char} (hm : IsMark m) : Caseless Char.toLower (char m) :=
  caseless_satisfy fun c => by
    rw [Bool.eq_iff_iff, beq_iff_eq, beq_iff_eq, hm.toLower_eq_iff]

theorem caseless_span (hf : ∀ c, f c.toLower = f c) : Caseless Text.lowered (span f) := by
  intro s
  rw [span, span, Text.takeWhile_lowered hf, Text.dropWhile_lowered hf]
  rfl

theorem caseless_span1 (hf : ∀ c, f c.toLower = f c) : Caseless Text.lowered (span1 f) := by
  intro s
  cases s with
  | nil => rfl
  | cons c t =>
      rw [Text.lowered_cons, span1, span1, hf]
      split
      · rw [Text.takeWhile_lowered hf, Text.dropWhile_lowered hf]
        rfl
      · rfl

theorem caseless_spanUpTo (n : Nat) (hf : ∀ c, f c.toLower = f c) :
    Caseless Text.lowered (spanUpTo n f) := by
  intro s
  have htake : (s.lowered.take n).takeWhile f = Text.lowered ((s.take n).takeWhile f) := by
    rw [← Text.takeWhile_lowered hf, Text.lowered_take]
  rw [spanUpTo, spanUpTo, htake]
  cases (s.take n).takeWhile f with
  | nil => rfl
  | cons c t =>
      simp only [Text.lowered_cons, Text.length_lowered, Outcome.lowered, Text.lowered_drop]

theorem caseless_literal {mark : String} (hmark : ∀ m ∈ mark.toList, IsMark m) :
    Caseless Text.lowered (literal mark) := by
  intro s
  rw [literal, literal, Text.isPrefixOf_lowered hmark]
  split
  · rw [Outcome.lowered, Text.lowered_of_marks hmark, Text.lowered_drop]
  · rfl

theorem caseless_upTo {mark : String} (hmark : ∀ m ∈ mark.toList, IsMark m) :
    Caseless Text.lowered (upTo mark) := by
  intro s
  rw [upTo, upTo, Text.splitBefore?_lowered hmark]
  cases Text.splitBefore? mark.toList s with
  | none => rfl
  | some parts => rfl

end Rule

/-! ### The words and marks of the schema language -/

namespace Lexeme

open Rule

theorem caseless_lineComment : Caseless Text.lowered lineComment := by
  have hmark : Caseless Text.lowered (literal "#" <|> literal "--") :=
    (caseless_literal (by decide)).orElse (caseless_literal (by decide))
  have hspan : Caseless Text.lowered (span fun c => c != '\n') :=
    caseless_span (apply_toLower (f := fun c => c != '\n') (by decide))
  exact Caseless.matched (hmark.bind fun _ => hspan)

theorem caseless_blockComment : Caseless Text.lowered blockComment := by
  have hopen : Caseless Text.lowered (literal "/*") := caseless_literal (by decide)
  have hinside : Caseless Text.lowered (upTo "*/") := caseless_upTo (by decide)
  have hclose : Caseless Text.lowered (literal "*/") := caseless_literal (by decide)
  exact Caseless.matched (hopen.bind fun _ => hinside.bind fun _ => hclose)

theorem caseless_comment : Caseless Text.lowered comment :=
  caseless_lineComment.orElse caseless_blockComment

theorem caseless_spaces : Caseless Text.lowered spaces :=
  caseless_span1 (apply_toLower (by decide))

theorem caseless_gap0 : Caseless id gap0 :=
  (caseless_spaces.orElse caseless_comment).many.discard

theorem caseless_gap1 : Caseless id gap1 :=
  (caseless_spaces.orElse caseless_comment).many1.discard

theorem caseless_parenthesized {α : Type} {g : α → α} {inner : Rule α} (h : Caseless g inner) :
    Caseless g (parenthesized inner) :=
  (caseless_char (by decide)).bind fun _ => caseless_gap0.bind fun _ => h.bind fun _ =>
    caseless_gap0.bind fun _ => (caseless_char (by decide)).bind fun _ => mirrors_pure rfl

theorem caseless_comma : Caseless id comma :=
  caseless_gap0.bind fun _ => (caseless_char (by decide)).bind fun _ => caseless_gap0

theorem caseless_commaList {α : Type} {g : α → α} {item : Rule α} (h : Caseless g item) :
    Caseless (List.map g) (commaList item) :=
  caseless_comma.sepBy1 h

theorem caseless_letters (word : Text) : Caseless Text.lowered (letters word) := by
  intro s
  rw [letters, letters, Text.agreesWith_lowered, Text.splitAtByte?_lowered]
  split
  · cases s.splitAtByte? word.byteLength <;> rfl
  · rfl

theorem caseless_wholeWord (word : Text) : Caseless Text.lowered (wholeWord word) :=
  (caseless_letters word).bind fun _ =>
    (caseless_satisfy isWordChar_lowered).absent.bind fun _ => mirrors_pure rfl

theorem caseless_keyword (word : String) : Caseless Text.lowered (keyword word) :=
  caseless_wholeWord word.toList

theorem caseless_wholeWords (ws : List Text) : Caseless id (wholeWords ws) := by
  induction ws with
  | nil => exact mirrors_pure rfl
  | cons w ws ih =>
      cases ws with
      | nil => exact (caseless_wholeWord w).discard
      | cons v ws => exact (caseless_wholeWord w).bind fun _ => caseless_gap1.bind fun _ => ih

theorem caseless_keywords (phrase : String) : Caseless Text.lowered (keywords phrase) :=
  (caseless_wholeWords _).matched

theorem caseless_bareIdentifier : Caseless Text.lowered bareIdentifier :=
  caseless_span1 isWordChar_lowered

theorem caseless_namedBetween {quote : Char} (hquote : IsMark quote) :
    Caseless id (namedBetween quote) := by
  have hother : ∀ c : Char, (c.toLower != quote) = (c != quote) := by
    intro c
    rw [Bool.eq_iff_iff, bne_iff_ne, bne_iff_ne, ne_eq, ne_eq, hquote.toLower_eq_iff]
  exact (caseless_char hquote).bind fun _ => (caseless_span1 hother).bind fun _ =>
    (caseless_char hquote).bind fun _ => mirrors_pure rfl

theorem caseless_identifier : Caseless Text.lowered identifier := by
  refine Caseless.orElse (Caseless.matched (g := id) (caseless_firstOf fun p hp => ?_))
    caseless_bareIdentifier
  simp only [List.mem_cons, List.not_mem_nil, or_false] at hp
  rcases hp with rfl | rfl | rfl
  · exact caseless_namedBetween (by decide)
  · exact caseless_namedBetween (by decide)
  · exact caseless_namedBetween (by decide)

theorem caseless_quotedBody {quote : Char} (hquote : IsMark quote) :
    Caseless Text.lowered (quotedBody quote) := by
  intro s
  cases s with
  | nil => rfl
  | cons c t =>
      rw [Text.lowered_cons, quotedBody, quotedBody, Text.splitAtQuote?_lowered hquote]
      by_cases hc : c = quote
      · rw [if_pos hc, if_pos ((hquote.toLower_eq_iff c).2 hc)]
        cases Text.splitAtQuote? quote t <;> rfl
      · rw [if_neg hc, if_neg (mt (hquote.toLower_eq_iff c).1 hc)]
        rfl

theorem caseless_quotedString : Caseless (Prod.map id Text.lowered) quotedString :=
  Caseless.orElse ((caseless_quotedBody (by decide)).map fun _ => rfl)
    ((caseless_quotedBody (by decide)).map fun _ => rfl)

theorem caseless_verbatim : Caseless Text.lowered verbatim := by
  refine Caseless.matched (Caseless.many (g := id) (caseless_firstOf fun p hp => ?_))
  simp only [verbatimPieces, List.mem_cons, List.not_mem_nil, or_false] at hp
  rcases hp with rfl | rfl | rfl | rfl | rfl | rfl
  · exact caseless_comment.discard
  · exact (caseless_quotedBody (by decide)).discard
  · exact (caseless_quotedBody (by decide)).discard
  · exact (caseless_quotedBody (by decide)).discard
  · exact (caseless_span1 (apply_toLower (by decide))).discard
  · exact (caseless_satisfy (apply_toLower (by decide))).discard

theorem caseless_statementEnd : Caseless id statementEnd :=
  caseless_gap0.bind fun _ => (caseless_char (by decide)).bind fun _ => mirrors_pure rfl

end Lexeme

end SchemaDelta
