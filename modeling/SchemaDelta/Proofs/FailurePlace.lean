/-
**Where a schema text is said not to fit.**

A text that is not read has a front that is, and behind it a statement that does not fit.  The place
that is reported lies in that statement.  Most kinds of statement leave the choice to the others
where they do not fit, and then the last of them, a lone semicolon, tells the place: the start of
the statement.  Only the creation of a table commits itself, once its first words and the gap behind
them were read, and then again to each of its definitions; so the place is never in front of the
words or the definitions that it has got over.

Main definitions:

* `SchemaDelta.Source.definitionsBefore` — a number of definitions with a comma behind each.

Main results:

* `SchemaDelta.Source.exists_of_readStatements_eq_error` — **the front of a text that is not read is
  read**, up to the statement that does not fit;
* `SchemaDelta.Source.rest_of_refuses_tableStart`, `SchemaDelta.Source.suffix_of_tableStart`,
  `SchemaDelta.Source.suffix_of_definitionsBefore` — where the statement gives up;
* `SchemaDelta.Source.exists_place_of_read_eq_error` — **where the place lies** that is reported.
-/

import SchemaDelta.Proofs.Progress
import SchemaDelta.Proofs.Splitting

set_option relaxedAutoImplicit false
set_option autoImplicit false

namespace SchemaDelta

/-! ### What is left where a rule gives up -/

namespace Rule

variable {α β : Type} {p : Rule α} {s : Text}

@[simp] theorem rest_commit (p : Rule α) (s : Text) : (p.commit s).rest = (p s).rest := by
  unfold commit
  cases p s <;> rfl

@[simp] theorem rest_within (name : Construct) (p : Rule α) (s : Text) :
    (p.within name s).rest = (p s).rest := by
  unfold within
  cases p s <;> rfl

/-- What follows a rule is not to blame where the rule itself gives up, and leaves no more. -/
theorem suffix_rest_bind {f : α → Rule β} {t : Text} (h : (p s).rest <:+ t)
    (hf : ∀ a m, p s = .ok a m → (f a m).rest <:+ m) : ((p >>= f) s).rest <:+ t := by
  rw [bind_apply]
  cases hp : p s with
  | ok a m =>
    rw [hp] at h
    exact (hf a m hp).trans h
  | mismatch why => rwa [hp] at h
  | abort why => rwa [hp] at h

theorem rest_map (f : α → β) (p : Rule α) (s : Text) : ((f <$> p) s).rest = (p s).rest := by
  rw [map_apply]
  cases p s <;> rfl

theorem rest_bind_pure (f : α → β) (p : Rule α) (s : Text) :
    ((p >>= fun a => pure (f a)) s).rest = (p s).rest :=
  rest_map f p s

/-- **A list whose members are committed to gives up where its remainder does**, once a member and
what separates it from the next one were read. -/
theorem rest_sepBy1_commit {sep : Rule β} [Tails p] {a : α} {b : β} {m next : Text}
    (hp : p s = .ok a m) (hsep : sep m = .ok b next) (hlt : next.length < m.length) :
    (sepBy1 sep p.commit s).rest = (sepBy1 sep p.commit next).rest := by
  have hfirst : p.commit s = .ok a m := commit_eq_ok_iff.2 hp
  unfold sepBy1
  rw [bind_of_ok hfirst, rest_bind_pure]
  cases hnext : p.commit next with
  | ok a' m' =>
    have hround : (sep *> p.commit) m = .ok a' m' := (bind_of_ok hsep _).trans hnext
    have hle := (Tails.suffix next a' m' (commit_eq_ok_iff.1 hnext)).length_le
    rw [many_of_ok hround (Nat.lt_of_le_of_lt hle hlt), bind_of_ok hnext, rest_bind_pure]
  | mismatch why =>
    rw [commit] at hnext
    split at hnext <;> cases hnext
  | abort why =>
    have hround : (sep *> p.commit) m = .abort why := (bind_of_ok hsep _).trans hnext
    rw [many_of_abort hround, bind_of_abort hnext]

theorem Mild.within (h : p.Mild) (name : Construct) : (p.within name).Mild := by
  intro s why hs
  rw [Rule.within] at hs
  cases hp : p s with
  | ok a rest => rw [hp] at hs; cases hs
  | mismatch why' => rw [hp] at hs; cases hs
  | abort why' => exact h s why' hp

/-- A choice that reads nothing is left to its last alternatives if those before them do not end the
reading. -/
theorem firstOf_append_of_ne_ok {ps qs : List (Rule α)} (hqs : qs ≠ [])
    (h : ∀ a rest, firstOf (ps ++ qs) s ≠ .ok a rest) (hps : ∀ p ∈ ps, ∀ why, p s ≠ .abort why) :
    firstOf (ps ++ qs) s = firstOf qs s := by
  induction ps with
  | nil => rfl
  | cons p ps ih =>
    obtain ⟨q, rs, hrest⟩ := List.exists_cons_of_ne_nil (List.append_ne_nil_of_right_ne_nil ps hqs)
    rw [List.cons_append, hrest, firstOf_cons_cons] at h ⊢
    cases hp : p s with
    | ok a rest => exact absurd (orElse_of_ok hp _) (h a rest)
    | mismatch why =>
      rw [orElse_of_mismatch hp, ← hrest] at h ⊢
      exact ih h fun r hr => hps r (List.mem_cons_of_mem p hr)
    | abort why => exact absurd hp (hps p List.mem_cons_self why)

end Rule

namespace Lexeme

open Rule

theorem mild_statementEnd : statementEnd.Mild :=
  mild_gap0.bind fun _ => (mild_satisfy _).bind fun _ => mild_pure _

theorem mild_verbatim : verbatim.Mild := by
  refine Mild.matched (Mild.many (mild_firstOf fun p hp => ?_))
  simp only [verbatimPieces, List.mem_cons, List.not_mem_nil, or_false] at hp
  rcases hp with rfl | rfl | rfl | rfl | rfl | rfl
  · exact mild_comment.discard
  · exact (mild_quotedBody _).discard
  · exact (mild_quotedBody _).discard
  · exact (mild_quotedBody _).discard
  · exact (mild_span1 _).discard
  · exact Mild.discard (mild_satisfy _)

end Lexeme

namespace Source

open Rule Lexeme Exchange

variable {text s m next rest : Text} {why : Mismatch}

/-! ### Kinds of statement that leave the choice to the others -/

theorem mild_verbatimEnd : verbatimEnd.Mild :=
  mild_verbatim.bind fun _ => mild_statementEnd.bind fun _ => mild_pure _

theorem mild_tableStart : tableStart.Mild :=
  (mild_keyword _).bind fun _ =>
    (Mild.optional (mild_gap1.bind fun _ => mild_keyword _)).bind fun _ => mild_gap1.bind fun _ =>
      (mild_keyword _).bind fun _ =>
        (Mild.optional (mild_gap1.bind fun _ => mild_keywords _)).bind fun _ =>
          mild_gap1.bind fun _ => mild_pure _

/-- The kinds of statement before the creation of a table leave the choice to the others. -/
theorem mild_of_mem_take_five {p : Rule Statement} (hp : p ∈ statements.take 5) : p.Mild := by
  simp only [statements, List.take, List.mem_cons, List.not_mem_nil, or_false] at hp
  rcases hp with rfl | rfl | rfl | rfl | rfl
  · exact mild_comment.map _
  · have hname : (identifier <* statementEnd).Mild :=
      mild_identifier.bind fun _ => mild_statementEnd.bind fun _ => mild_pure _
    exact (mild_keyword _).bind fun _ => mild_gap1.bind fun _ =>
      (hname.within _).bind fun _ => mild_pure _
  · exact (mild_keyword _).bind fun _ => mild_verbatimEnd.bind fun _ => mild_pure _
  · exact (mild_keywords _).bind fun _ => mild_verbatimEnd.bind fun _ => mild_pure _
  · exact (mild_keyword _).bind fun _ => mild_gap1.bind fun _ =>
      ((mild_keyword _).orElse (mild_keyword _)).bind fun _ =>
        (Mild.optional (mild_gap1.bind fun _ => mild_keywords _)).bind fun _ =>
          mild_gap1.bind fun _ => mild_identifier.bind fun _ => mild_verbatimEnd.bind fun _ =>
            mild_pure _

/-- So do the kinds behind it, up to the lone semicolon. -/
theorem mild_of_mem_drop_six {p : Rule Statement} (hp : p ∈ (statements.drop 6).take 3) :
    p.Mild := by
  simp only [statements, List.drop, List.take, List.mem_cons, List.not_mem_nil, or_false] at hp
  rcases hp with rfl | rfl | rfl
  · exact (mild_keywords _).bind fun _ => mild_gap1.bind fun _ => mild_identifier.bind fun _ =>
      mild_verbatimEnd.bind fun _ => mild_pure _
  · exact (mild_keyword _).bind fun _ => mild_verbatimEnd.bind fun _ => mild_pure _
  · exact (mild_keyword _).bind fun _ => (mild_span1 _).bind fun _ => (mild_span1 _).bind fun _ =>
      mild_pure _

/-! ### Where a statement gives up -/

/-- **A statement that is no creation of a table gives up at its start.** -/
theorem rest_of_refuses_tableStart (h : ∀ st rest, statement s ≠ .ok st rest)
    (hstart : ∀ start rest, tableStart s ≠ .ok start rest) : (statement s).rest = s := by
  have hsplit : statements = (statements.take 5 ++ [.createTable <$> createTable] ++
      (statements.drop 6).take 3) ++ [(fun _ => .empty) <$> char ';'] := rfl
  have hsemicolon : statement s = ((fun _ => Statement.empty) <$> char ';') s := by
    rw [statement, hsplit] at h ⊢
    refine firstOf_append_of_ne_ok (List.cons_ne_nil _ _) h fun p hp why => ?_
    simp only [List.mem_append, List.mem_singleton] at hp
    rcases hp with (hp | rfl) | hp
    · exact mild_of_mem_take_five hp s why
    · obtain ⟨why', htable⟩ := ((mild_tableStart.refuses hstart).bind fun start =>
        commit (within .createTable tableBody) >>= fun body =>
          pure (⟨start.1, start.2, body.1, body.2.1, body.2.2⟩ : Table)).map Statement.createTable
      exact fun habort => by cases htable.symm.trans habort
    · exact mild_of_mem_drop_six hp s why
  rw [hsemicolon] at h ⊢
  rw [rest_map]
  cases s with
  | nil => rfl
  | cons c t =>
    by_cases hc : c = ';'
    · subst hc
      exact absurd rfl (h .empty t)
    · have hne : ¬ (c == ';') = true := by simpa using hc
      rw [char, satisfy, if_neg hne]
      rfl

/-- Behind its first words the creation of a table is committed to. -/
theorem statement_of_tableStart {start : Bool × Bool} (h : ∀ st rest, statement s ≠ .ok st rest)
    (hstart : tableStart s = .ok start m) :
    (statement s).rest = (tableBody m).rest := by
  have hsplit : statements =
      statements.take 5 ++ .createTable <$> createTable :: statements.drop 6 := rfl
  have htable : statement s =
      firstOf (.createTable <$> createTable :: statements.drop 6) s := by
    rw [statement, hsplit] at h ⊢
    exact firstOf_append_of_ne_ok (List.cons_ne_nil _ _) h fun p hp why =>
      mild_of_mem_take_five hp s why
  have hbody : (createTable s).rest = (tableBody m).rest := by
    rw [createTable, bind_of_ok hstart, rest_bind_pure, rest_commit, rest_within]
  rw [htable] at h ⊢
  cases hread : createTable s with
  | ok T rest => exact absurd (orElse_of_ok (map_eq_ok_iff.2 ⟨T, hread, rfl⟩) _) (h _ rest)
  | mismatch why =>
    -- a commitment is never given up for an alternative
    rw [createTable, bind_of_ok hstart, bind_apply, commit] at hread
    cases hwithin : Rule.within .createTable tableBody m <;> rw [hwithin] at hread <;> cases hread
  | abort why =>
    have habort : (Statement.createTable <$> createTable) s = .abort why := by
      rw [map_apply, hread]
    rw [← hbody, hread]
    exact congrArg Outcome.rest (orElse_of_abort habort _)

theorem suffix_of_tableStart {start : Bool × Bool} (h : ∀ st rest, statement s ≠ .ok st rest)
    (hstart : tableStart s = .ok start m) : (statement s).rest <:+ m := by
  rw [statement_of_tableStart h hstart]
  exact faultless_tableBody.suffix m

/-- A number of definitions, with a comma behind each. -/
def definitionsBefore : Nat → Rule Unit
  | 0 => pure ()
  | k + 1 => do
    let _ ← createDefinition
    comma
    definitionsBefore k

/-- The definitions of a table give up behind those that are followed by a comma. -/
theorem suffix_of_definitionsBefore {k : Nat} (h : definitionsBefore k s = .ok () next) :
    (createDefinitions s).rest <:+ next := by
  induction k generalizing s with
  | zero =>
    cases h
    exact faultless_createDefinitions.suffix _
  | succ k ih =>
    obtain ⟨D, m, hD, h⟩ := bind_eq_ok_iff.1 h
    obtain ⟨⟨⟩, n, hcomma, h⟩ := bind_eq_ok_iff.1 h
    have hstep : (createDefinitions s).rest = (createDefinitions n).rest :=
      rest_sepBy1_commit hD hcomma (takes_comma m () n hcomma)
    rw [hstep]
    exact ih h

/-- **A table gives up behind the definitions** that it has got over. -/
theorem suffix_of_tableFront {front : Bool × Bool × Text} {k : Nat}
    (h : ∀ st rest, statement s ≠ .ok st rest) (hfront : tableFront s = .ok front m)
    (hbefore : definitionsBefore k m = .ok () next) : (statement s).rest <:+ next := by
  rw [tableFront_eq] at hfront
  obtain ⟨start, n, hstart, hfront⟩ := bind_eq_ok_iff.1 hfront
  obtain ⟨name, n', hname, hfront⟩ := bind_eq_ok_iff.1 hfront
  obtain ⟨⟨⟩, n₁, hgap, hfront⟩ := bind_eq_ok_iff.1 hfront
  obtain ⟨c, n₂, hopen, hfront⟩ := bind_eq_ok_iff.1 hfront
  obtain ⟨⟨⟩, n₃, hgap', hfront⟩ := bind_eq_ok_iff.1 hfront
  cases hfront
  have hclose : ∀ Ds : List Definition, (gap0 >>= fun _ => char ')' >>= fun _ =>
      (pure Ds : Rule (List Definition))).Faultless := fun _ =>
    faultless_gap0.bind fun _ => (faultless_char ')').bind fun _ => faultless_pure _
  have hdefinitions : (parenthesized createDefinitions n₁).rest <:+ next := by
    rw [parenthesized, bind_of_ok hopen, bind_of_ok hgap']
    exact suffix_rest_bind (suffix_of_definitionsBefore hbefore) fun Ds m' _ =>
      (hclose Ds).suffix m'
  rw [statement_of_tableStart h hstart, tableBody, bind_of_ok hname, bind_of_ok hgap]
  refine suffix_rest_bind (by rwa [rest_within]) fun Ds m' _ => Faultless.suffix ?_ m'
  exact (faultless_separatedOption.many Exchange.takes_separatedOption).bind fun _ =>
    faultless_statementEnd.bind fun _ => faultless_pure _

/-! ### The front that is read -/

/-- Where the front ends with a word character, no word runs on behind it. -/
def ClosesBefore (a b : Text) : Prop :=
  ∀ u c, a = u ++ [c] → isWordChar c = true → WordEnds b

theorem ClosesBefore.append_left {a b : Text} (h : ClosesBefore a b) (hne : a ≠ []) (w : Text) :
    ClosesBefore (w ++ a) b := by
  intro v d hv
  rw [← List.dropLast_append_getLast hne, ← List.append_assoc, List.append_singleton_inj] at hv
  exact hv.2 ▸ h a.dropLast (a.getLast hne) (List.dropLast_append_getLast hne).symm

/-- A text is read up to a statement that does not fit. -/
structure FailsBehind (why : Mismatch) (text a b : Text) : Prop where
  append : text = a ++ b
  front : ∃ ss, readStatements a = .ok ss
  closes : ClosesBefore a b
  ne_nil : b ≠ []
  trimmed : b.trimStart = b
  fails : ∀ st rest, statement b ≠ .ok st rest
  rest_eq : (statement b).rest = why.rest

theorem isBlankChar_of_trimStart {c : Char} {t u : Text} (h : t.trimStart = c :: u) :
    Text.isBlankChar c = false := by
  have hnot := List.head?_dropWhile_not Text.isBlankChar t
  rwa [← Text.trimStart, h] at hnot

theorem trimStart_trimStart (t : Text) : t.trimStart.trimStart = t.trimStart := by
  cases htrim : t.trimStart with
  | nil => rfl
  | cons c u => exact trimStart_cons (isBlankChar_of_trimStart htrim) u

/-- The blank text in front is read as no statement. -/
theorem FailsBehind.of_trimStart (hne : text.trimStart ≠ [])
    (hfails : ∀ st rest, statement text.trimStart ≠ .ok st rest)
    (hrest : (statement text.trimStart).rest = why.rest) :
    FailsBehind why text (text.takeWhile Text.isBlankChar) text.trimStart where
  append := List.takeWhile_append_dropWhile.symm
  front := by
    have hblank : Text.trimStart (text.takeWhile Text.isBlankChar) = [] :=
      List.dropWhile_eq_nil_iff.2 fun c (hc : c ∈ text.takeWhile Text.isBlankChar) =>
        List.mem_takeWhile_imp hc
    exact ⟨[], by rw [readStatements, hblank]⟩
  closes u c hu hword := by
    have hc : c ∈ text.takeWhile Text.isBlankChar := by simp [hu]
    have hblank := List.mem_takeWhile_imp hc
    rw [isBlankChar_of_isWordChar hword] at hblank
    cases hblank
  ne_nil := hne
  trimmed := trimStart_trimStart text
  fails := hfails
  rest_eq := hrest

/-- A statement that ends in the front is read with the text behind the front cut off. -/
theorem statement_cut {front a b : Text} {st : Statement} (hcloses : ClosesBefore (front ++ a) b)
    (h : statement (front ++ a ++ b) = .ok st (a ++ b)) : statement (front ++ a) = .ok st a := by
  have hx : (cut (front ++ a) b).Fair := fair_cut hcloses
  have hnew := hx.statement_new (s := front ++ a) (r := a)
    (fun c hc => by cases hc) List.suffix_rfl (fun d _ _ => columnStays_cut d) h
  rwa [cut, swap, appended, List.append_nil, List.append_nil] at hnew

/-- A text is read as far as what follows its first statement is. -/
theorem FailsBehind.cons {st : Statement} {a b : Text}
    (hst : statement text.trimStart = .ok st rest) (h : FailsBehind why rest a b) :
    ∃ front, FailsBehind why text (text.takeWhile Text.isBlankChar ++ (front ++ a)) b := by
  obtain ⟨u, c, hu, hc⟩ := closes_statement _ st rest hst
  have hsplit : text.trimStart = u ++ [c] ++ a ++ b := by
    rw [hu, h.append]
    simp
  have hne : u ++ [c] ++ a ≠ [] := by simp
  -- the front ends where the rest of it does, or with the statement
  have hcloses : ClosesBefore (u ++ [c] ++ a) b := by
    by_cases ha : a = []
    · subst ha
      intro v d hv hword
      rw [List.append_nil, List.append_singleton_inj] at hv
      have hends := hc (hv.2 ▸ hword)
      rwa [h.append] at hends
    · exact h.closes.append_left ha (u ++ [c])
  have hread : statement (u ++ [c] ++ a) = .ok st a := by
    refine statement_cut hcloses ?_
    rw [← hsplit, hst, h.append]
  have hfront : Text.trimStart (text.takeWhile Text.isBlankChar ++ (u ++ [c] ++ a)) =
      u ++ [c] ++ a := by
    obtain ⟨d, v, hd⟩ := List.exists_cons_of_ne_nil hne
    rw [hd] at hsplit ⊢
    exact trimStart_append (List.all_eq_true.2 fun c hc => List.mem_takeWhile_imp hc)
      (isBlankChar_of_trimStart hsplit)
  refine ⟨u ++ [c], ?_, ?_, hcloses.append_left hne _, h.ne_nil, h.trimmed, h.fails, h.rest_eq⟩
  · rw [List.append_assoc, ← hsplit]
    exact List.takeWhile_append_dropWhile.symm
  · obtain ⟨ss, hss⟩ := h.front
    have hst' := readStatements_of_statement (hfront.symm ▸ hread)
    exact ⟨st :: ss, by rw [hst', hss]; rfl⟩

/-- **The front of a text that is not read is read**, up to the statement that does not fit. -/
theorem exists_failsBehind (h : readStatements text = .error why) :
    ∃ a b, FailsBehind why text a b := by
  fun_induction readStatements text generalizing why with
  | case1 => cases h
  | case2 text c t htrim st rest hst hlt ih =>
    cases hrest : readStatements rest with
    | ok ss => rw [hrest] at h; cases h
    | error why' =>
      rw [hrest] at h
      cases h
      obtain ⟨a, b, hfails⟩ := ih hrest
      obtain ⟨front, hfails⟩ := hfails.cons (htrim ▸ hst)
      exact ⟨_, b, hfails⟩
  | case3 text c t htrim st rest hst hlt =>
    have htakes := closes_statement.takes _ st rest hst
    have hle := (htrim ▸ trimStart_suffix text).length_le
    exact absurd (Nat.lt_of_lt_of_le htakes hle) hlt
  | case4 text c t htrim why' hst | case5 text c t htrim why' hst =>
    cases h
    rw [← htrim] at hst
    exact ⟨_, _, .of_trimStart (htrim ▸ List.cons_ne_nil c t)
      (fun _ _ hok => by cases hst.symm.trans hok) (by rw [hst]; rfl)⟩

/-- What is reported is where that statement gives up. -/
theorem exists_failsBehind_of_read {source : Text} {failure : Failure}
    (h : read source = .error failure) :
    ∃ why a b, FailsBehind why source a b ∧ why.rest <:+ b ∧ failure = failureOf source why := by
  cases hread : readStatements source with
  | ok ss => rw [read, hread] at h; cases h
  | error why =>
    rw [read, hread, Except.error.injEq] at h
    obtain ⟨a, b, hb⟩ := exists_failsBehind hread
    exact ⟨why, a, b, hb, hb.rest_eq ▸ faultless_statement.suffix b, h.symm⟩

/-! ### The place that is reported -/

/-- A text is read up to a statement that does not fit, and the position lies where that statement
gave up, behind everything that it had committed itself to. -/
structure LiesIn (position : Nat) (source a b : Text) : Prop where
  append : source = a ++ b
  front : ∃ ss, read a = .ok ss
  ne_nil : b ≠ []
  trimmed : b.trimStart = b
  fails : ∀ st rest, statement b ≠ .ok st rest
  /-- The position is one of the statement. -/
  bounds : a.byteLength ≤ position ∧ position ≤ source.byteLength
  /-- It is the start of a statement that is no creation of a table. -/
  start : (∀ words rest, tableStart b ≠ .ok words rest) → position = a.byteLength
  /-- It is not in front of what follows the first words of a creation of a table. -/
  header : ∀ text words rest, b = text ++ rest → tableStart b = .ok words rest →
    (a ++ text).byteLength ≤ position
  /-- It is not in front of a definition that follows others, with a comma behind each. -/
  definitions : ∀ k text table first next, b = text ++ next → tableFront b = .ok table first →
    definitionsBefore k first = .ok () next → (a ++ text).byteLength ≤ position

/-- What is left where a rule gives up tells a position behind everything in front of it. -/
theorem byteLength_le_of_append {source front : Text} (hsource : source = front ++ next)
    (h : rest <:+ next) : front.byteLength ≤ source.byteLength - rest.byteLength := by
  have hle := Text.byteLength_le_of_suffix h
  rw [hsource, Text.byteLength_append]
  omega

/-- **Where the place lies that is reported** for a text that is not read. -/
theorem exists_place_of_read_eq_error {source : Text} {failure : Failure}
    (h : read source = .error failure) :
    ∃ place context a b, failure = .malformed place context ∧
      LiesIn place.position source a b := by
  obtain ⟨why, a, b, hb, hrest, hfailure⟩ := exists_failsBehind_of_read h
  have hposition : ∀ n m : Nat, min (n - m) n = n - m := fun n m => by omega
  refine ⟨Place.ofByte source (source.byteLength - why.rest.byteLength), _, a, b, hfailure, ?_⟩
  simp only [Place.ofByte, hposition]
  refine ⟨hb.append, ?_, hb.ne_nil, hb.trimmed, hb.fails, ?_, ?_, ?_, ?_⟩
  · obtain ⟨ss, hss⟩ := hb.front
    exact ⟨ss, read_eq_ok_iff.2 hss⟩
  · exact ⟨byteLength_le_of_append hb.append hrest, Nat.sub_le _ _⟩
  · intro hstart
    rw [← hb.rest_eq, rest_of_refuses_tableStart hb.fails hstart, hb.append,
      Text.byteLength_append, Nat.add_sub_cancel]
  · intro text words rest htext hstart
    refine byteLength_le_of_append ?_ (?_ : _ <:+ rest)
    · rw [hb.append, htext, List.append_assoc]
    · exact hb.rest_eq ▸ suffix_of_tableStart hb.fails hstart
  · intro k text table first next htext hfront hbefore
    refine byteLength_le_of_append ?_ (?_ : _ <:+ next)
    · rw [hb.append, htext, List.append_assoc]
    · exact hb.rest_eq ▸ suffix_of_tableFront hb.fails hfront hbefore

/-- The second definition of the second statement does not fit. -/
theorem exists_place_of_read_eq_error_sample :
    let source : Text := "SET a = 1;\nCREATE TABLE t (a INT, b;".toList
    ∃ failure place context a b, read source = .error failure ∧
      failure = .malformed place context ∧ LiesIn place.position source a b := by
  intro source
  have hnone : (read source).toOption = none := by decide +kernel
  cases hread : read source with
  | ok ss => rw [hread] at hnone; cases hnone
  | error failure =>
    obtain ⟨place, context, a, b, hfailure, hlies⟩ := exists_place_of_read_eq_error hread
    exact ⟨failure, place, context, a, b, rfl, hfailure, hlies⟩

end Source

end SchemaDelta
