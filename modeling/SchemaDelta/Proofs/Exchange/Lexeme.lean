/-
**Exchanging the text behind names, strings and lists.**

A quoted name ends with its quote.  A bare name ends where its characters do, and so does a string,
since a second quote would belong to it; both survive the exchange in front of some text.  What
stands in parentheses does so in front of any text.

Main results:

* `SchemaDelta.Exchange.keeps_identifier`, `SchemaDelta.Exchange.keeps_quotedString` — names and
  strings survive the exchange;
* `SchemaDelta.Exchange.keeps_parenthesized`, `SchemaDelta.Exchange.keeps_commaList` — **so do
  parentheses and lists**, if what is inside of them does.
-/

import SchemaDelta.Proofs.Exchange.Gap

set_option relaxedAutoImplicit false
set_option autoImplicit false

namespace SchemaDelta

/-- No other quote follows the one that ends a string. -/
theorem Text.head_of_splitAtQuote? {q : Char} {t body rest : Text}
    (h : splitAtQuote? q t = some (body, rest)) : ∀ c ∈ rest.head?, c ≠ q := by
  fun_induction splitAtQuote? q t generalizing body rest with
  | case1 => cases h
  | case2 => cases h
  | case3 => cases h; exact fun c hc => by cases hc
  | case4 => cases h
  | case5 d t ih =>
    obtain ⟨p, hp, heq⟩ := Option.map_eq_some_iff.1 h
    cases heq
    exact ih hp
  | case6 t hq ih =>
    obtain ⟨p, hp, heq⟩ := Option.map_eq_some_iff.1 h
    cases heq
    exact ih hp
  | case7 d t _ hne =>
    cases h
    intro c hc
    cases hc
    assumption
  | case8 c d t hc hq ih =>
    obtain ⟨p, hp, heq⟩ := Option.map_eq_some_iff.1 h
    cases heq
    exact ih hp

namespace Lexeme

open Rule

variable {α : Type}

instance (q : Char) : Tails (namedBetween q) := by
  unfold namedBetween
  infer_instance

instance : Tails quotedIdentifier := by
  unfold quotedIdentifier
  infer_instance

instance : Tails bareIdentifier := by
  unfold bareIdentifier
  infer_instance

instance : Tails identifier := by
  unfold identifier
  infer_instance

instance (q : Char) : Tails (quotedBody q) where
  suffix s body rest h := by
    obtain ⟨rfl, -⟩ := quotedBody_eq_ok h
    exact List.suffix_append _ rest

instance : Tails quotedString := by
  unfold quotedString
  infer_instance

instance (inner : Rule α) [Tails inner] : Tails (parenthesized inner) := by
  unfold parenthesized
  infer_instance

instance : Tails comma := by
  unfold comma
  infer_instance

instance (item : Rule α) [Tails item] : Tails (commaList item) := by
  unfold commaList
  infer_instance

instance : Tails statementEnd := by
  unfold statementEnd
  infer_instance

/-! ### How names and strings start -/

/-- The characters that names start with. -/
def isNameStart (c : Char) : Prop :=
  Text.isNameQuote c = true ∨ isWordChar c = true

theorem isGapStart_of_isNameQuote {c : Char} (h : Text.isNameQuote c = true) :
    isGapStart c = false := by
  simp only [Text.isNameQuote, Bool.or_eq_true, beq_iff_eq] at h
  rcases h with (rfl | rfl) | rfl <;> decide

theorem isWordChar_of_isNameQuote {c : Char} (h : Text.isNameQuote c = true) :
    isWordChar c = false := by
  simp only [Text.isNameQuote, Bool.or_eq_true, beq_iff_eq] at h
  rcases h with (rfl | rfl) | rfl <;> decide

theorem isGapStart_of_isNameStart {c : Char} (h : isNameStart c) : isGapStart c = false :=
  h.elim isGapStart_of_isNameQuote isGapStart_of_isWordChar

theorem starts_namedBetween {q : Char} (hq : Text.isNameQuote q = true) :
    (namedBetween q).Starts fun c => c = q :=
  Starts.bind (starts_char rfl (isWordChar_of_isNameQuote hq))

theorem starts_quotedIdentifier : quotedIdentifier.Starts fun c => Text.isNameQuote c = true := by
  refine Starts.matched (starts_firstOf fun p hp => ?_)
  simp only [List.mem_cons, List.not_mem_nil, or_false] at hp
  rcases hp with rfl | rfl | rfl <;>
    exact (starts_namedBetween (by decide)).mono fun c hc => hc ▸ by decide

theorem starts_bareIdentifier : bareIdentifier.Starts fun c => isWordChar c = true :=
  starts_span1 fun _ h => h

theorem starts_identifier : identifier.Starts isNameStart :=
  (starts_quotedIdentifier.mono fun _ => .inl).orElse (starts_bareIdentifier.mono fun _ => .inr)

theorem starts_quotedBody {q : Char} (hq : Text.isNameQuote q = true) :
    (quotedBody q).Starts fun c => c = q := by
  intro s body rest h
  obtain ⟨rfl, -⟩ := quotedBody_eq_ok h
  refine ⟨q, body ++ [q] ++ rest, rfl, rfl, List.suffix_append _ rest, ?_⟩
  rw [List.cons_append, List.dropWhile_cons_of_neg (by simp [isWordChar_of_isNameQuote hq])]
  exact List.suffix_append (q :: (body ++ [q])) rest

theorem starts_quotedString : quotedString.Starts fun c => Text.isNameQuote c = true :=
  (((starts_quotedBody (by decide)).mono fun c hc => hc ▸ by decide).map _).orElse
    (((starts_quotedBody (by decide)).mono fun c hc => hc ▸ by decide).map _)

/-! ### Rules that leave the choice to the alternatives -/

theorem mild_identifier : identifier.Mild := by
  refine (mild_firstOf fun p hp => ?_).matched.orElse (mild_span1 _)
  simp only [List.mem_cons, List.not_mem_nil, or_false] at hp
  rcases hp with rfl | rfl | rfl <;>
    exact (mild_satisfy _).bind fun _ => (mild_span1 _).bind fun _ => (mild_satisfy _).map _

theorem mild_parenthesized {inner : Rule α} (h : inner.Mild) : (parenthesized inner).Mild :=
  (mild_satisfy _).bind fun _ => mild_gap0.bind fun _ => h.bind fun _ => mild_gap0.bind fun _ =>
    (mild_satisfy _).map _

theorem mild_commaList {item : Rule α} (h : item.Mild) : (commaList item).Mild := by
  have hcomma : comma.Mild := mild_gap0.bind fun _ => (mild_satisfy _).bind fun _ => mild_gap0
  exact h.bind fun _ => (hcomma.bind fun _ => h).many.bind fun _ => mild_pure _

/-! ### How parentheses start -/

theorem starts_parenthesized (inner : Rule α) [Tails inner] :
    (parenthesized inner).Starts fun c => c = '(' :=
  Starts.bind (starts_char rfl (by decide))

end Lexeme

namespace Exchange

open Rule Lexeme

variable {x : Exchange} {α : Type} {L : Text → Prop} {s r m t : Text}

/-! ### Names -/

theorem keeps_namedBetween (q : Char) : x.Keeps (namedBetween q) L := by
  have hclose : x.Keeps (char q >>= fun _ => pure ()) L :=
    (keeps_char q).andThen fun _ => keeps_pure ()
  refine (keeps_char q).andThen fun _ => (keeps_span1 _).bind (fun _ => hclose) ?_
  intro s a m b r _ h _
  obtain ⟨d, mid, hquote, -⟩ := reads_bind h
  rw [reads_char hquote]
  exact List.cons_ne_nil q mid

theorem keeps_quotedIdentifier : x.Keeps quotedIdentifier L := by
  have hother : ∀ {q c : Char}, Text.isNameQuote c = true → c ≠ q → ∀ s a r, s <:+ x.whole →
      x.Reads (namedBetween c) s a r → L r → x.StaysOut (namedBetween q) s := by
    intro q c hc hne s a r _ h _
    obtain ⟨d, t, rfl, rfl, -⟩ := Starts.ne_nil (starts_namedBetween hc) h
    exact StaysOut.of_refuses fun z => (refuses_char hne).bind _
  refine Keeps.matched (keeps_firstOf (fun p hp => ?_) ?_)
  · simp only [List.mem_cons, List.not_mem_nil, or_false] at hp
    rcases hp with rfl | rfl | rfl <;> exact keeps_namedBetween _
  · refine .cons (fun p hp => ?_) (.cons (fun p hp => ?_) (List.pairwise_singleton _ _))
    · simp only [List.mem_cons, List.not_mem_nil, or_false] at hp
      rcases hp with rfl | rfl <;> exact hother (by decide) (by decide)
    · obtain rfl := List.mem_singleton.1 hp
      exact hother (by decide) (by decide)

theorem keeps_bareIdentifier : x.Keeps bareIdentifier (· ≠ []) :=
  keeps_span1 isWordChar

/-- **A name survives the exchange** in front of some text. -/
theorem keeps_identifier : x.Keeps identifier (· ≠ []) := by
  refine (keeps_quotedIdentifier).orElse keeps_bareIdentifier fun s a r _ h _ => ?_
  obtain ⟨c, t, rfl, hc, -⟩ := Starts.ne_nil starts_bareIdentifier h
  exact StaysOut.of_refuses fun z =>
    refuses_quotedIdentifier (Text.isNameQuote_of_isWordChar hc) (t ++ z)

/-- A name that is not quoted stays out where it is refused. -/
theorem staysOut_identifier {c : Char} (hc : Text.isNameQuote c = false) (t : Text) :
    x.StaysOut identifier (c :: t) := by
  cases hword : isWordChar c with
  | false => exact StaysOut.of_refuses fun z => refuses_identifier hc hword (t ++ z)
  | true =>
    rintro ⟨why, hwhy⟩
    have hread : bareIdentifier (c :: (t ++ x.old)) =
        .ok (c :: (t ++ x.old).takeWhile isWordChar) ((t ++ x.old).dropWhile isWordChar) :=
      if_pos hword
    rw [List.cons_append, identifier,
      (refuses_quotedIdentifier hc (t ++ x.old)).orElse_apply, hread] at hwhy
    cases hwhy

/-! ### Strings -/

theorem keeps_quotedBody (q : Char) : x.Keeps (quotedBody q) (· ≠ []) := by
  intro s body r _ hr h
  obtain ⟨heq, hsplit⟩ := quotedBody_eq_ok h
  rw [← List.append_assoc] at heq
  obtain rfl := List.append_cancel_right heq
  rw [List.append_assoc]
  refine quotedBody_append (Text.splitAtQuote?_append hsplit ?_)
  have hhead := Text.head_of_splitAtQuote? hsplit
  cases r with
  | nil => exact absurd rfl hr
  | cons c t => exact hhead

theorem keeps_quotedString : x.Keeps quotedString (· ≠ []) := by
  refine ((keeps_quotedBody _).map _).orElse ((keeps_quotedBody _).map _) fun s a r _ h _ => ?_
  obtain ⟨body, -, h⟩ := reads_map h
  obtain ⟨c, t, rfl, rfl, -⟩ := Starts.ne_nil (starts_quotedBody (by decide)) h
  exact StaysOut.of_refuses fun z => (refuses_quotedBody (by decide) (t ++ z)).map _

/-! ### Parentheses and lists -/

/-- **What stands in parentheses survives the exchange** if what is inside of them does. -/
theorem keeps_parenthesized {inner : Rule α} [Tails inner]
    (hinner : x.Keeps inner (Leads fun c => c = ')'))
    (hfirm : ∀ m a r, Solid (m ++ x.old) → x.Reads inner m a r → r ≠ [] → Firm m) :
    x.Keeps (parenthesized inner) L := by
  have hclose : ∀ a : α, x.Keeps (char ')' >>= fun _ => pure a) L := fun a =>
    (keeps_char ')').andThen fun _ => keeps_pure a
  have hstart : ∀ a : α, (char ')' >>= fun _ => pure a : Rule α).Starts fun c => c = ')' :=
    fun a => Starts.bind (starts_char rfl (by decide))
  have hmeets : ∀ a : α, x.Meets (fun c => c = ')')
      (gap0 >>= fun _ => char ')' >>= fun _ => pure a) L := fun a =>
    meets_gap0_bind (meets_of_mark (hstart a) fun c hc => hc ▸ by decide) (hstart a)
      fun c hc => hc ▸ by decide
  have hrest : x.Keeps (inner >>= fun a => gap0 >>= fun _ => char ')' >>= fun _ => pure a) L := by
    refine hinner.bind (fun a => keeps_gap0_bind (hclose a) (hstart a) fun c hc => hc ▸ by decide) ?_
    exact fun s a m b r _ h hr => hmeets a m b r h hr
  refine (keeps_char '(').andThen fun _ => keeps_gap0_bind' hrest fun m b r hsolid h hr => ?_
  obtain ⟨a, mid, ha, hb, -⟩ := reads_bind h
  exact hfirm m a mid hsolid ha (hmeets a mid b r hb hr).ne_nil

theorem keeps_comma : x.Keeps comma Firm := by
  refine keeps_gap0_bind (D := fun c => c = ',') ?_ (Starts.bind (starts_char rfl (by decide)))
    fun c hc => hc ▸ by decide
  exact (keeps_char ',').andThen fun _ => keeps_gap0

theorem takes_comma : Takes 1 comma :=
  (takes_zero gap0).bind fun _ => (starts_char (C := fun c => c = ',') rfl (by decide)).takes.bind
    fun _ => takes_zero gap0

theorem takes_comma_seq {item : Rule α} [Tails item] : Takes 1 (comma *> item) :=
  Takes.bind (f := fun _ => item) takes_comma fun _ => takes_zero item

/-- The text leads to a comma where one is read. -/
theorem meets_comma : x.Meets (fun c => c = ',') comma L := by
  have hstart : (char ',' >>= fun _ => gap0 : Rule Unit).Starts fun c => c = ',' :=
    Starts.bind (starts_char rfl (by decide))
  exact meets_gap0_bind (meets_of_mark hstart fun c hc => hc ▸ by decide) hstart
    fun c hc => hc ▸ by decide

theorem meets_comma_seq {item : Rule α} [Tails item] :
    x.Meets (fun c => c = ',') (comma *> item) L := by
  intro s a r h _
  obtain ⟨u, m, hcomma, -⟩ := reads_bind (f := fun _ => item) h
  exact meets_comma (L := fun _ => True) s u m hcomma trivial

/-- No comma follows where the text leads to something else. -/
theorem staysOut_comma_seq {item : Rule α} {c : Char} (hc : c ≠ ',') (hs : GapTo s (c :: t)) :
    x.StaysOut (comma *> item) s :=
  StaysOut.of_refuses fun z => (refuses_comma (hs.2 z) hc).bind _

/-- A list is its first member and, behind a comma, another list. -/
theorem exists_of_commaList {item : Rule α} {as : List α} {rest : Text}
    (h : commaList item s = .ok as rest) : ∃ a mid, item s = .ok a mid ∧
      (as = [a] ∧ rest = mid ∨ ∃ next as', as = a :: as' ∧ comma mid = .ok () next ∧
        commaList item next = .ok as' rest) := by
  obtain ⟨a, mid, ha, h₁⟩ := bind_eq_ok_iff.1 h
  obtain ⟨bs, last, hbs, hpure⟩ := bind_eq_ok_iff.1 h₁
  cases hpure
  refine ⟨a, mid, ha, ?_⟩
  cases hseq : (comma *> item) mid with
  | mismatch why =>
    rw [many_of_mismatch hseq] at hbs
    cases hbs
    exact .inl ⟨rfl, rfl⟩
  | abort why => rw [many_of_abort hseq] at hbs; cases hbs
  | ok b mid' =>
    by_cases hlt : mid'.length < mid.length
    · obtain ⟨u, next, hcomma, hb⟩ := bind_eq_ok_iff.1 hseq
      obtain ⟨cs, rfl, hcs⟩ := exists_of_many_eq_ok hseq hlt hbs
      exact .inr ⟨next, b :: cs, rfl, hcomma,
        bind_eq_ok_iff.2 ⟨b, mid', hb, bind_eq_ok_iff.2 ⟨cs, rest, hcs, rfl⟩⟩⟩
    · rw [many_of_not_lt hseq hlt] at hbs
      cases hbs
      exact .inl ⟨rfl, rfl⟩

theorem ne_nil_of_commaList {item : Rule α} {as : List α} {rest : Text}
    (h : commaList item s = .ok as rest) : as ≠ [] := by
  obtain ⟨a, mid, -, ⟨rfl, -⟩ | ⟨next, as', rfl, -⟩⟩ := exists_of_commaList h <;>
    exact List.cons_ne_nil _ _

theorem commaList_singleton {item : Rule α} {a : α} (h : item s = .ok a r) (hr : comma.Refuses r) :
    commaList item s = .ok [a] r :=
  bind_eq_ok_iff.2 ⟨a, r, h, bind_eq_ok_iff.2
    ⟨[], r, Refuses.many (p := comma *> item) (hr.bind fun _ => item), rfl⟩⟩

theorem commaList_cons {item : Rule α} [Tails item] {a : α} {as : List α} {next last : Text}
    (h : item s = .ok a m) (hcomma : comma m = .ok () next)
    (hlist : commaList item next = .ok as last) : commaList item s = .ok (a :: as) last := by
  obtain ⟨b, mid, hb, h₁⟩ := bind_eq_ok_iff.1 hlist
  obtain ⟨bs, last', hbs, hpure⟩ := bind_eq_ok_iff.1 h₁
  cases hpure
  have hseq : (comma *> item) m = .ok b mid := bind_eq_ok_iff.2 ⟨(), next, hcomma, hb⟩
  exact bind_eq_ok_iff.2 ⟨a, m, h, bind_eq_ok_iff.2
    ⟨b :: bs, last, many_eq_cons hseq (takes_comma_seq m b mid hseq) hbs, rfl⟩⟩

theorem reads_commaList {item : Rule α} [Tails item] {as : List α}
    (h : x.Reads (commaList item) s as r) : ∃ a m, x.Reads item s a m ∧ m <:+ s ∧
      (as = [a] ∧ r = m ∨ ∃ m' as', as = a :: as' ∧ x.Reads comma m () m' ∧
        x.Reads (commaList item) m' as' r ∧ m' <:+ m) := by
  obtain ⟨a, mid, ha, ⟨rfl, rfl⟩ | ⟨next, as', rfl, hcomma, hlist⟩⟩ := exists_of_commaList h
  · exact ⟨a, r, ha, Reads.suffix (p := item) ha, .inl ⟨rfl, rfl⟩⟩
  · obtain ⟨v, rfl⟩ : r ++ x.old <:+ next := Tails.suffix _ as' _ hlist
    obtain ⟨w, rfl⟩ : v ++ (r ++ x.old) <:+ mid := Tails.suffix _ () _ hcomma
    simp only [← List.append_assoc] at ha hcomma hlist
    have hcomma : x.Reads comma (w ++ v ++ r) () (v ++ r) := hcomma
    have ha : x.Reads item s a (w ++ v ++ r) := ha
    exact ⟨a, w ++ v ++ r, ha, ha.suffix, .inr ⟨v ++ r, as', rfl, hcomma, hlist, hcomma.suffix⟩⟩

/-- The characters that stand behind the members of a list. -/
def isItemEnd (c : Char) : Prop :=
  c = ',' ∨ c = ')'

/-- **A list survives the exchange** if its members do. -/
theorem keeps_commaList {item : Rule α} [Tails item] (hitem : x.Keeps item (Leads isItemEnd))
    (hfirm : ∀ m a r, Solid (m ++ x.old) → x.Reads item m a r → r ≠ [] → Firm m) :
    x.Keeps (commaList item) (Leads fun c => c = ')') := by
  have hmeets : x.Meets isItemEnd (Rule.many (comma *> item)) (Leads fun c => c = ')') := by
    intro s as r h hr
    rcases reads_many takes_comma_seq h with ⟨a, m, bs, -, ha, -⟩ | ⟨-, -, rfl⟩
    · exact (meets_comma_seq (L := fun _ => True) s a m ha trivial).mono fun c => .inl
    · exact hr.mono fun c => .inr
  have hseq : x.Keeps (comma *> item) (Leads isItemEnd) := by
    refine keeps_comma.bind (fun _ => hitem) fun s u m a r hcomma h hr => ?_
    obtain ⟨v, mid, -, hcomma, -⟩ := reads_bind hcomma
    obtain ⟨c, mid', -, hgap, -⟩ := reads_bind hcomma
    exact hfirm m a r (solid_of_gap0 hgap) h hr.ne_nil
  have hmany : x.Keeps (Rule.many (comma *> item)) (Leads fun c => c = ')') := by
    refine hseq.many takes_comma_seq (fun m as r _ h hr => hmeets m as r h hr) fun s _ hs => ?_
    obtain ⟨c, t, hgap, rfl, -⟩ := hs
    exact staysOut_comma_seq (by decide) hgap
  refine hitem.bind (fun a => hmany.bind (fun as => keeps_pure _) ?_) ?_
  · intro s as m b r _ h hr
    obtain ⟨-, rfl⟩ := reads_pure h
    exact hr
  · intro s a m b r _ h hr
    obtain ⟨as, mid, has, hpure, -⟩ := reads_bind h
    obtain ⟨-, rfl⟩ := reads_pure hpure
    exact hmeets m as r has hr

end Exchange

end SchemaDelta
