/-
**Exchanging the text behind the arguments of types and default values.**

Where an argument or a default value ends is decided by what follows it.  Which kind of default
value is read may depend on what stands further behind: `now--` is a word of its own unless the
comment that the dashes open is followed by the parentheses of a call.  An exchange is fair if what
is refused like this call with the old text behind is refused with the new one.

Main definitions:

* `SchemaDelta.Exchange.Fair` — the new text gives nothing to what was refused with the old one.

Main results:

* `SchemaDelta.Exchange.keeps_typeArgs` — the arguments of a type survive the exchange;
* `SchemaDelta.Exchange.Fair.keeps_defaultValue` — **so does a default value** in a fair exchange.
-/

import SchemaDelta.Proofs.Column
import SchemaDelta.Proofs.Exchange.Key

set_option relaxedAutoImplicit false
set_option autoImplicit false
set_option synthInstance.maxSize 1000

namespace SchemaDelta

namespace Source

open Rule Lexeme

instance : Tails exponent := by
  unfold exponent
  infer_instance

/-- The fraction and the exponent of a number. -/
def numberEnd : Rule Unit := do
  let _ ← Rule.optional (char '.' *> span Char.isDigit)
  let _ ← Rule.optional exponent

/-- A number without its sign. -/
def unsignedNumber : Rule Unit := do
  let _ ← digits1
  numberEnd

instance : Tails numberEnd := by
  unfold numberEnd
  infer_instance

instance : Tails unsignedNumber := by
  unfold unsignedNumber
  infer_instance

theorem number_eq : number = matched (Rule.optional (oneOf "+-") >>= fun _ => unsignedNumber) :=
  rfl

instance : Tails number := by
  rw [number_eq]
  infer_instance

instance : Tails typeArg := by
  unfold typeArg
  infer_instance

instance : Tails emptyCall := by
  unfold emptyCall
  infer_instance

instance : Tails currentTime := by
  unfold currentTime
  infer_instance

instance : Tails bitLiteral := by
  unfold bitLiteral
  infer_instance

instance : Tails defaultValue := by
  unfold defaultValue
  infer_instance

end Source

namespace Exchange

open Rule Lexeme Source

variable {x : Exchange} {α β : Type} {p : Rule α} {L : Text → Prop} {s r m t : Text}

/-! ### Numbers -/

/-- Something follows, and not the letter of an exponent. -/
def NoExponent (r : Text) : Prop :=
  r ≠ [] ∧ ∀ c ∈ r.head?, c ≠ 'e' ∧ c ≠ 'E'

theorem keeps_exponent : x.Keeps exponent (· ≠ []) := by
  refine (keeps_satisfy _).andThen fun _ => (keeps_satisfy _).optional_bind (M := fun _ => True)
    (fun _ => keeps_digits1) (fun _ _ _ _ _ _ => trivial) fun s b r _ h hr => ?_
  exact staysOut_satisfy _ (ne_nil_of_reads (p := digits1) h hr)

theorem keeps_numberEnd : x.Keeps numberEnd NoExponent := by
  have hexponent : x.Keeps (Rule.optional exponent >>= fun _ => pure ()) NoExponent := by
    refine keeps_exponent.optional_bind (fun _ => keeps_pure ()) (fun _ _ _ _ h hr => ?_)
      fun s b r _ h hr => ?_
    · obtain ⟨-, rfl⟩ := reads_pure h
      exact hr.1
    · obtain ⟨-, rfl⟩ := reads_pure h
      obtain ⟨hne, hhead⟩ := hr
      cases r with
      | nil => exact absurd rfl hne
      | cons c t =>
        obtain ⟨he, hE⟩ := hhead c rfl
        exact StaysOut.of_refuses fun z => (refuses_satisfy (by simp [he, hE])).bind _
  have hpoint : x.Keeps (char '.' *> span Char.isDigit) (· ≠ []) :=
    (keeps_char '.').andThen (f := fun _ => span Char.isDigit) fun _ => keeps_span _
  refine hpoint.optional_bind (fun _ => hexponent) (fun _ _ _ _ h hr => ne_nil_of_reads h hr.1)
    fun s b r _ h hr => ?_
  refine StaysOut.bind (f := fun _ => span Char.isDigit)
    (staysOut_satisfy _ (ne_nil_of_reads h hr.1)) ?_
  rintro c rest - ⟨why, hwhy⟩
  cases hwhy

theorem keeps_unsignedNumber : x.Keeps unsignedNumber NoExponent :=
  keeps_digits1.bind (fun _ => keeps_numberEnd) fun _ _ _ _ _ _ h hr => ne_nil_of_reads h hr.1

theorem keeps_number : x.Keeps number NoExponent := by
  rw [number_eq]
  refine Keeps.matched ((keeps_satisfy _).optional_bind (M := fun _ => True)
    (fun _ => keeps_unsignedNumber) (fun _ _ _ _ _ _ => trivial) fun s b r _ h hr => ?_)
  exact staysOut_satisfy _ (ne_nil_of_reads h hr.1)

/-- A number starts with a sign or a digit, and there is more of it than a sign. -/
theorem exists_of_reads_number {a : Text} (h : x.Reads number s a r) (hr : r ≠ []) :
    ∃ c t, s = c :: t ∧ (c.isDigit = true ∨ c = '+' ∨ c = '-') ∧ t ≠ [] := by
  rw [number_eq] at h
  obtain ⟨u, hread⟩ := reads_matched h
  obtain ⟨o, m, hsign, hunsigned, -⟩ := reads_bind hread
  have hm := ne_nil_of_reads hunsigned hr
  rcases reads_optional hsign with ⟨c, -, hc⟩ | ⟨-, -, rfl⟩
  · obtain ⟨rfl, hin⟩ := reads_satisfy hc
    have hmem : c = '+' ∨ c = '-' := by simpa using hin
    exact ⟨c, m, rfl, .inr hmem, hm⟩
  · obtain ⟨ds, m', hdigits, hend, -⟩ := reads_bind hunsigned
    have hm' := ne_nil_of_reads hend hr
    obtain ⟨rfl, hne, hds, -⟩ := reads_span1 hdigits hm'
    cases ds with
    | nil => exact absurd rfl hne
    | cons c ds => exact ⟨c, ds ++ m', rfl, .inl (hds c List.mem_cons_self), by simp [hm']⟩

theorem noExponent_of_leads (h : Leads isItemEnd r) : NoExponent r := by
  refine ⟨h.ne_nil, fun c hc => ?_⟩
  rcases h.head c hc with (rfl | rfl) | hgap
  · decide
  · decide
  · constructor <;> rintro rfl <;> exact absurd hgap (by decide)

/-! ### Arguments of types -/

theorem refuses_number_of_isNameQuote {c : Char} (hc : Text.isNameQuote c = true) (t : Text) :
    number.Refuses (c :: t) := by
  simp only [Text.isNameQuote, Bool.or_eq_true, beq_iff_eq] at hc
  rcases hc with (rfl | rfl) | rfl <;> exact refuses_number (by decide) (by decide) t

/-- **An argument of a type survives the exchange** where the list goes on or ends. -/
theorem keeps_typeArg : x.Keeps typeArg (Leads isItemEnd) := by
  have hstring : x.Keeps (matched quotedString) (Leads isItemEnd) :=
    (keeps_quotedString.mono fun _ h => h.ne_nil).matched
  have hword : x.Keeps bareIdentifier (Leads isItemEnd) :=
    keeps_bareIdentifier.mono fun _ h => h.ne_nil
  refine (keeps_number.mono fun _ => noExponent_of_leads).orElse
    (hstring.orElse hword fun s a r _ h _ => ?_) fun s a r _ h hr => ?_
  · obtain ⟨c, t, rfl, hc, -⟩ := Starts.ne_nil starts_bareIdentifier h
    exact StaysOut.of_refuses fun z =>
      (refuses_quotedString (Text.isNameQuote_of_isWordChar hc) (t ++ z)).matched
  · rcases orElse_eq_ok h with h | ⟨-, h⟩
    · obtain ⟨c, t, rfl, hc, -⟩ := Starts.ne_nil starts_quotedString.matched h
      exact StaysOut.of_refuses fun z => refuses_number_of_isNameQuote hc (t ++ z)
    · obtain ⟨c, t, rfl, hc, -⟩ := Starts.ne_nil starts_bareIdentifier h
      cases hdigit : c.isDigit with
      | true => exact fun hnumber => absurd hnumber (not_refuses_number hdigit (t ++ x.old))
      | false =>
        have hsign : c ≠ '+' ∧ c ≠ '-' := by
          constructor <;> rintro rfl <;> exact absurd hc (by decide)
        exact StaysOut.of_refuses fun z => refuses_number hsign hdigit (t ++ z)

theorem firm_of_typeArg {a : Text} (hsolid : Solid (m ++ x.old)) (h : x.Reads typeArg m a r)
    (hr : r ≠ []) : Firm m := by
  rcases orElse_eq_ok h with h | ⟨-, h⟩
  · obtain ⟨c, t, rfl, hc, ht⟩ := exists_of_reads_number h hr
    refine hsolid.firm ?_
    rcases hc with hc | rfl | rfl
    · exact .inl (isGapStart_of_isDigit hc)
    · exact .inl (by decide)
    · exact .inr ⟨rfl, ht⟩
  rcases orElse_eq_ok h with h | ⟨-, h⟩
  · exact firm_of_starts starts_quotedString.matched (fun _ => isGapStart_of_isNameQuote) h
  · exact firm_of_starts starts_bareIdentifier (fun _ => isGapStart_of_isWordChar) h

/-- **The arguments of a type survive the exchange.** -/
theorem keeps_typeArgs : x.Keeps (gap0 *> parenthesized (commaList typeArg)) L := by
  refine keeps_gap0_bind (f := fun _ => parenthesized (commaList typeArg)) ?_
    (starts_parenthesized _) fun c hc => hc ▸ by decide
  refine keeps_parenthesized (keeps_commaList keeps_typeArg fun _ _ _ => firm_of_typeArg) ?_
  intro m as r hsolid h hr
  obtain ⟨a, m', ha, hmany, -⟩ := reads_bind h
  exact firm_of_typeArg hsolid ha (ne_nil_of_reads hmany hr)

/-! ### The time of the change -/

/-- What stands between the parentheses of a call, with the closing one. -/
def callEnd : Rule Unit := do
  gap0
  let _ ← char ')'

instance : Tails callEnd := by
  unfold callEnd
  infer_instance

theorem keeps_callEnd : x.Keeps callEnd L :=
  keeps_gap0_bind ((keeps_char ')').andThen fun _ => keeps_pure _)
    (Starts.bind (starts_char rfl (by decide))) fun c hc => hc ▸ by decide

theorem meets_callEnd : x.Meets (fun c => c = ')') callEnd L := by
  have hstart : (char ')' >>= fun _ => pure () : Rule Unit).Starts fun c => c = ')' :=
    Starts.bind (starts_char rfl (by decide))
  exact meets_gap0_bind (meets_of_mark hstart fun c hc => hc ▸ by decide) hstart
    fun c hc => hc ▸ by decide

/-- The parentheses of a call survive the exchange. -/
theorem keeps_emptyCall : x.Keeps emptyCall L := by
  have hinside : x.Keeps (Rule.optional digits1 >>= fun _ => callEnd) L := by
    refine keeps_digits1.optional_bind (fun _ => keeps_callEnd) (fun _ m b r h hr => ?_)
      fun s b r _ h hr => ?_
    · exact (meets_callEnd m b r h hr).ne_nil
    · exact staysOut_span1 _ (meets_callEnd s b r h hr).ne_nil
  refine (keeps_char '(').andThen fun _ => keeps_gap0_bind' hinside fun m b r hsolid h hr => ?_
  obtain ⟨o, m', ho, hend, -⟩ := reads_bind h
  have hmeets := meets_callEnd m' b r hend hr
  rcases reads_optional ho with ⟨ds, -, hds⟩ | ⟨-, -, rfl⟩
  · exact firm_of_digits1 hds hmeets.ne_nil
  · obtain ⟨c, t, hgap, -⟩ := hmeets
    rw [hgap.unique (gap0_of_solid hsolid)]
    exact hgap.1

theorem starts_emptyCall : emptyCall.Starts fun c => c = '(' :=
  Starts.bind (starts_char rfl (by decide))

theorem heads_currentTime : currentTime.Heads timeWords :=
  (Heads.bind (heads_keyword (by decide))).orElse (Heads.bind (heads_keyword (by decide)))

/-- The time of the change with the parentheses that it may have. -/
def timestamp : Rule Unit := do
  let _ ← keyword "current_timestamp"
  let _ ← Rule.optional (gap0 *> emptyCall)

/-- The time of the change with the parentheses that it has to have. -/
def now : Rule Unit := do
  let _ ← keyword "now"
  gap0
  emptyCall

theorem keeps_call : x.Keeps (gap0 *> emptyCall) L :=
  keeps_gap0_bind (f := fun _ => emptyCall) keeps_emptyCall starts_emptyCall
    fun c hc => hc ▸ by decide

theorem staysOut_call {c : Char} (hc : c ≠ '(') (hs : GapTo s (c :: t)) :
    x.StaysOut (gap0 *> emptyCall) s :=
  staysOut_gap0_bind (f := fun _ => emptyCall) hs
    (StaysOut.of_refuses fun _ => (refuses_char hc).bind _)

/-- The characters that a default value may be followed by, the gap apart. -/
def isValueEnd (c : Char) : Prop :=
  isWordChar c = true ∨ isItemEnd c

theorem isValueEnd.ne {c : Char} (h : isValueEnd c) {d : Char} (hd : isWordChar d = false)
    (hcomma : d ≠ ',') (hclose : d ≠ ')') : c ≠ d := by
  rintro rfl
  rcases h with h | h | h
  · rw [hd] at h
    cases h
  · exact hcomma h
  · exact hclose h

/-- The time of the change survives the exchange. -/
theorem keeps_currentTime : x.Keeps currentTime (Leads isValueEnd) := by
  have hcall : x.Keeps (Rule.optional (gap0 *> emptyCall) >>= fun _ => pure ())
      (Leads isValueEnd) := by
    refine keeps_call.optional_bind (M := fun _ => True) (fun _ => keeps_pure ())
      (fun _ _ _ _ _ _ => trivial) fun s b r _ h hr => ?_
    obtain ⟨-, rfl⟩ := reads_pure h
    obtain ⟨c, t, hgap, hc, -⟩ := hr
    exact staysOut_call (hc.ne (by decide) (by decide) (by decide)) hgap
  have htimestamp : x.Keeps timestamp (Leads isValueEnd) :=
    (keeps_keyword (by decide)).bind (fun _ => hcall) fun _ _ _ _ _ _ h hr =>
      ne_nil_of_reads h hr.ne_nil
  have hnow : x.Keeps now (Leads isValueEnd) := by
    refine (keeps_keyword (by decide)).bind (fun _ => keeps_call) fun _ _ m b r _ h hr => ?_
    exact ne_nil_of_reads (p := gap0 *> emptyCall) h hr.ne_nil
  refine htimestamp.orElse hnow fun s a r _ h hr => ?_
  have hheads : now.Heads ["now".toList] := Heads.bind (heads_keyword (by decide))
  exact StaysOut.of_refuses
    (refuses_of_heads hheads ((ledBy_keyword "current_timestamp").bind _) (by decide) h hr.ne_nil)

/-! ### Bits -/

theorem keeps_letters_b : x.Keeps (letters "b".toList) L := by
  intro s a r _ _ h
  obtain ⟨heq, hletters⟩ := (letters_eq_ok_iff (by decide)).1 h
  rw [← List.append_assoc] at heq
  obtain rfl := List.append_cancel_right heq
  exact (letters_eq_ok_iff (by decide)).2 ⟨List.append_assoc _ _ _, hletters⟩

theorem keeps_spanUpTo {n : Nat} {f : Char → Bool} :
    x.Keeps (spanUpTo n f) fun r => ∃ c t, r = c :: t ∧ f c = false := by
  rintro s a r _ ⟨c, t, rfl, hc⟩ h
  obtain ⟨hne, hchars, hlen⟩ := yields_spanUpTo n f _ a _ h
  have heq := append_of_spanUpTo h
  rw [← List.append_assoc] at heq
  rw [List.append_cancel_right heq, List.append_assoc]
  exact spanUpTo_append hne hchars hlen _ fun d hd => by cases hd; exact hc

/-- **Bits survive the exchange.** -/
theorem keeps_bitLiteral : x.Keeps bitLiteral L := by
  have hclose : ∀ digits : Text, x.Keeps (char singleQuote >>= fun _ => pure digits) L :=
    fun digits => (keeps_char _).andThen fun _ => keeps_pure digits
  have hdigits : x.Keeps (spanUpTo 64 isBit >>= fun digits => char singleQuote >>= fun _ =>
      pure digits) L := by
    refine keeps_spanUpTo.bind hclose fun _ _ m b r _ h _ => ?_
    obtain ⟨c, m', hquote, -⟩ := reads_bind h
    exact ⟨singleQuote, m', reads_char hquote, by decide⟩
  exact keeps_letters_b.andThen fun _ => (keeps_char _).andThen fun _ => hdigits

/-- Bits start with a letter, and a quote follows it. -/
theorem exists_of_bitLiteral {a : Text} (h : bitLiteral s = .ok a r) :
    ∃ c t, s = c :: singleQuote :: t ∧ (c = 'b' ∨ c = 'B') ∧ r <:+ t := by
  obtain ⟨b, hb, rfl, -⟩ := bitLiteral_eq_ok_iff.1 h
  exact ⟨b, _, rfl, hb, (List.suffix_cons singleQuote r).trans (List.suffix_append a _)⟩

theorem starts_bitLiteral : bitLiteral.Starts fun c => c = 'b' ∨ c = 'B' := by
  intro s a rest h
  obtain ⟨c, t, rfl, hc, hrest⟩ := exists_of_bitLiteral h
  refine ⟨c, singleQuote :: t, rfl, hc, hrest.trans (List.suffix_cons _ t), ?_⟩
  have hword : isWordChar c = true := by
    rcases hc with rfl | rfl <;> decide
  rw [List.dropWhile_cons_of_pos hword, List.dropWhile_cons_of_neg (by decide)]
  exact hrest.trans (List.suffix_cons _ t)

/-! ### Default values -/

/-- **The new text gives nothing to what was refused with the old one**: no comment is closed by
it, and where a comment takes the end of the front away, neither an action goes on with it nor a
call. -/
structure Fair (x : Exchange) : Prop where
  comments : x.KeepsComments
  word : ∀ s, s <:+ x.whole → s ≠ [] → ∀ w ∈ ["null", "default", "action"],
    x.StaysOut (gap1 *> keyword w) s
  call : ∀ s, s <:+ x.whole → s ≠ [] → x.StaysOut (gap0 *> emptyCall) s

theorem refuses_currentTime_of_isNameQuote {c : Char} (hc : Text.isNameQuote c = true) (t : Text) :
    currentTime.Refuses (c :: t) := by
  simp only [Text.isNameQuote, Bool.or_eq_true, beq_iff_eq] at hc
  rcases hc with (rfl | rfl) | rfl <;> exact ledBy_currentTime.refuses_cons (by decide) t

theorem Fair.staysOut_currentTime (hx : x.Fair) (hs : s <:+ x.whole) (hbreaks : Breaks s) :
    x.StaysOut currentTime s := by
  have htimestamp : x.StaysOut timestamp s := by
    refine StaysOut.bind (staysOut_keyword (by decide) hbreaks) fun t rest _ hrefuses => ?_
    obtain ⟨o, last, ho⟩ := (mild_gap0.bind fun _ => mild_emptyCall).optional_eq_ok rest
    obtain ⟨why, hwhy⟩ := hrefuses
    rw [show Rule.optional (gap0 *> emptyCall) = Rule.optional (gap0 >>= fun _ => emptyCall) from rfl,
      bind_of_ok ho] at hwhy
    cases hwhy
  have hnow : x.StaysOut now s := by
    refine StaysOut.bind (staysOut_keyword (by decide) hbreaks) fun t rest h hrefuses => ?_
    obtain ⟨v, rfl, rfl, hv, hends, hspells⟩ := exists_of_wholeWord (by decide) hbreaks h
    rw [List.append_assoc]
    refine refuses_bind_of_ok (keyword_append "now" t hspells (hends.append hv x.new)) ?_
    exact hx.call v ((List.suffix_append t v).trans hs) hv hrefuses
  exact htimestamp.orElse hnow

/-- Where a word is kept as it is, bits are not read with any text behind. -/
theorem staysOut_bitLiteral {a : Text} (h : x.Reads (span1 isTokenChar) s a r)
    (hr : Leads isValueEnd r) : x.StaysOut bitLiteral s := by
  obtain ⟨rfl, hne, hchars, -⟩ := reads_span1 h hr.ne_nil
  have hquote : singleQuote ∉ r.head? := by
    intro hmem
    rcases hr.head _ hmem with hc | hc
    · exact hc.ne (d := singleQuote) (by decide) (by decide) (by decide) rfl
    · exact absurd hc (by decide)
  refine StaysOut.of_refuses fun z => mild_bitLiteral.refuses fun ds last hread => ?_
  -- the quote behind the letter would stand in the word, or follow it
  obtain ⟨c, t, heq, -, -⟩ := exists_of_bitLiteral hread
  cases a with
  | nil => exact hne rfl
  | cons d a =>
    rw [List.append_assoc, List.cons_append, List.cons.injEq] at heq
    obtain ⟨-, heq⟩ := heq
    cases a with
    | cons e a =>
      rw [List.cons_append, List.cons.injEq] at heq
      have he := hchars e (by simp)
      rw [heq.1] at he
      exact absurd he (by decide)
    | nil =>
      cases hr' : r with
      | nil => exact hr.ne_nil hr'
      | cons e u =>
        rw [hr', List.nil_append, List.cons_append, List.cons.injEq] at heq
        exact hquote (by rw [hr', heq.1]; rfl)

/-- The kinds of default value. -/
def defaultValues : List (Rule Source.DefaultValue) :=
  [(fun _ => .currentTimestamp) <$> currentTime, (fun q => .quoted q.1 q.2) <$> quotedString,
    .bits <$> bitLiteral, .token <$> span1 isTokenChar]

/-- **A default value survives a fair exchange** where a qualifier, a comma or a parenthesis
follows. -/
theorem Fair.keeps_defaultValue (hx : x.Fair) : x.Keeps defaultValue (Leads isValueEnd) := by
  have hne : ∀ r, Leads isValueEnd r → r ≠ [] := fun _ h => h.ne_nil
  change x.Keeps (firstOf defaultValues) _
  refine keeps_firstOf (fun p hp => ?_) ?_
  · simp only [defaultValues, List.mem_cons, List.not_mem_nil, or_false] at hp
    rcases hp with rfl | rfl | rfl | rfl
    · exact keeps_currentTime.map _
    · exact (keeps_quotedString.mono hne).map _
    · exact keeps_bitLiteral.map _
    · exact ((keeps_span1 _).mono hne).map _
  refine .cons (fun q hq s a r hs h hr => StaysOut.map ?_ _) (.cons (fun q hq s a r hs h hr =>
    StaysOut.map ?_ _) (.cons (fun q hq s a r hs h hr => StaysOut.map ?_ _)
      (List.pairwise_singleton _ _)))
  · simp only [List.mem_cons, List.not_mem_nil, or_false] at hq
    rcases hq with rfl | rfl | rfl
    · obtain ⟨v, -, h⟩ := reads_map h
      obtain ⟨c, t, rfl, hc, -⟩ := Starts.ne_nil starts_quotedString h
      exact StaysOut.of_refuses fun z => refuses_currentTime_of_isNameQuote hc (t ++ z)
    · obtain ⟨v, -, h⟩ := reads_map h
      obtain ⟨c, t, rfl, hc, -⟩ := Starts.ne_nil starts_bitLiteral h
      refine StaysOut.of_refuses fun z => ?_
      rcases hc with rfl | rfl <;> exact ledBy_currentTime.refuses_cons (by decide) (t ++ z)
    · obtain ⟨v, -, h⟩ := reads_map h
      obtain ⟨c, t, rfl, -, hbreaks⟩ :=
        Starts.breaks (starts_span1 fun _ => isTokenChar_of_isWordChar) h hr.ne_nil
      exact hx.staysOut_currentTime hs hbreaks
  · simp only [List.mem_cons, List.not_mem_nil, or_false] at hq
    have hquote : ∃ c t, s = c :: t ∧ Text.isNameQuote c = false := by
      rcases hq with rfl | rfl
      · obtain ⟨v, -, h⟩ := reads_map h
        obtain ⟨c, t, rfl, hc, -⟩ := Starts.ne_nil starts_bitLiteral h
        exact ⟨c, t, rfl, by rcases hc with rfl | rfl <;> decide⟩
      · obtain ⟨v, -, h⟩ := reads_map h
        obtain ⟨c, t, rfl, hc, -⟩ :=
          Starts.ne_nil (starts_span1 fun _ => isTokenChar_of_isWordChar) h
        exact ⟨c, t, rfl, Text.isNameQuote_of_any (by decide) hc⟩
    obtain ⟨c, t, rfl, hc⟩ := hquote
    exact StaysOut.of_refuses fun z => refuses_quotedString hc (t ++ z)
  · obtain rfl := List.mem_singleton.1 hq
    obtain ⟨v, -, h⟩ := reads_map h
    exact staysOut_bitLiteral h hr

/-- What a default value starts with is its first word, or a quote. -/
theorem starts_defaultValue :
    defaultValue.Starts fun c => isTokenChar c = true ∨ Text.isNameQuote c = true := by
  refine starts_firstOf fun p hp => ?_
  simp only [List.mem_cons, List.not_mem_nil, or_false] at hp
  rcases hp with rfl | rfl | rfl | rfl
  · exact (heads_currentTime.starts.mono fun c hc => .inl (isTokenChar_of_isWordChar hc)).map _
  · exact (starts_quotedString.mono fun _ => .inr).map _
  · exact (starts_bitLiteral.mono fun c hc => .inl (by rcases hc with rfl | rfl <;> decide)).map _
  · exact ((starts_span1 fun _ => isTokenChar_of_isWordChar).mono fun _ => .inl).map _

/-- A default value that is read behind a gap starts firmly. -/
theorem firm_of_defaultValue {v : Source.DefaultValue} (hsolid : Solid (m ++ x.old))
    (h : x.Reads defaultValue m v r) (hr : r ≠ []) : Firm m := by
  obtain ⟨c, t, rfl, hc, hrest⟩ := Starts.ne_nil starts_defaultValue h
  refine hsolid.firm ?_
  rcases hc with hc | hc
  · simp only [isTokenChar, Bool.or_eq_true, beq_iff_eq] at hc
    rcases hc with ((hc | rfl) | rfl) | rfl
    · exact .inl (isGapStart_of_isWordChar hc)
    · exact .inl (by decide)
    · exact .inl (by decide)
    · refine .inr ⟨rfl, ?_⟩
      rintro rfl
      exact hr (List.suffix_nil.1 hrest)
  · exact .inl (isGapStart_of_isNameQuote hc)

end Exchange

end SchemaDelta
