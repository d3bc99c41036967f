/-
**Exchanging the text behind statements that were read.**

A text is read statement by statement.  Where the first statements of a text end in its front, they
are read with another text behind the front as well, and the reading goes on with what is left.

Main definitions:

* `SchemaDelta.Rule.Closes` — no word runs on behind what a rule reads;
* `SchemaDelta.Source.restAfter` — what is left of a text behind its first statements.

Main results:

* `SchemaDelta.Source.closes_statement` — no word runs on behind a statement;
* `SchemaDelta.Source.readStatements_restAfter` — what is left is read as the other statements;
* `SchemaDelta.Exchange.Fair.readStatements_new` — **the first statements of a text survive a fair
  exchange** if the columns of their tables stay what they are;
* `SchemaDelta.Exchange.Fair.isColumn_of_readStatements` — the columns stay what they are if the
  same statements are read.
-/

import SchemaDelta.Proofs.Exchange.Statement

set_option relaxedAutoImplicit false
set_option autoImplicit false
set_option synthInstance.maxSize 2000

namespace SchemaDelta

namespace Rule

open Lexeme

variable {α β : Type} {p q : Rule α}

/-! ### What stands behind a statement -/

/-- What a rule reads is not empty, and where it ends with a word character, no word runs on behind
it. -/
def Closes (p : Rule α) : Prop :=
  ∀ s a rest, p s = .ok a rest →
    ∃ u c, s = u ++ c :: rest ∧ (isWordChar c = true → WordEnds rest)

theorem Closes.bind {f : α → Rule β} [Tails p] (hf : ∀ a, (f a).Closes) : (p >>= f).Closes := by
  intro s b rest h
  obtain ⟨a, mid, ha, hb⟩ := bind_eq_ok_iff.1 h
  obtain ⟨u, c, rfl, hc⟩ := hf a mid b rest hb
  obtain ⟨w, rfl⟩ := Tails.suffix s a _ ha
  exact ⟨w ++ u, c, (List.append_assoc w u _).symm, hc⟩

theorem Closes.map (h : p.Closes) (f : α → β) : (f <$> p).Closes := by
  intro s b rest hb
  obtain ⟨a, ha, -⟩ := map_eq_ok_iff.1 hb
  exact h s a rest ha

theorem Closes.matched (h : p.Closes) : p.matched.Closes := by
  intro s t rest ht
  obtain ⟨a, ha, -⟩ := matched_eq_ok ht
  exact h s a rest ha

theorem Closes.within (h : p.Closes) (name : Construct) : (p.within name).Closes :=
  fun s a rest ha => h s a rest (within_eq_ok_iff.1 ha)

theorem Closes.orElse (hp : p.Closes) (hq : q.Closes) : (p <|> q).Closes := by
  intro s a rest h
  rcases orElse_eq_ok h with h | ⟨-, h⟩
  · exact hp s a rest h
  · exact hq s a rest h

theorem closes_firstOf {ps : List (Rule α)} (h : ∀ p ∈ ps, p.Closes) : (firstOf ps).Closes := by
  intro s a rest ha
  obtain ⟨p, hp, ha⟩ := exists_of_firstOf_eq_ok ha
  exact h p hp s a rest ha

theorem Closes.takes (h : p.Closes) : Takes 1 p := by
  intro s a rest ha
  obtain ⟨u, c, rfl, -⟩ := h s a rest ha
  rw [List.length_append, List.length_cons]
  omega

/-- What takes something and leaves no word closes. -/
theorem closes_of_wordEnds [Tails p] (htakes : Takes 1 p)
    (h : ∀ s a rest, p s = .ok a rest → WordEnds rest) : p.Closes := by
  intro s a rest ha
  obtain ⟨w, rfl⟩ := Tails.suffix s a rest ha
  have hlen := htakes _ a rest ha
  rw [List.length_append] at hlen
  have hw : w ≠ [] := by
    rintro rfl
    rw [List.length_nil] at hlen
    omega
  refine ⟨w.dropLast, w.getLast hw, ?_, fun _ => h _ a rest ha⟩
  conv_lhs => rw [← List.dropLast_append_getLast hw]
  rw [List.append_assoc]
  rfl

theorem closes_char {c : Char} (hc : isWordChar c = false) : (char c).Closes := by
  intro s d rest h
  obtain ⟨rfl, -⟩ := char_eq_ok_iff.1 h
  exact ⟨[], c, rfl, fun hword => by rw [hc] at hword; cases hword⟩

end Rule

namespace Source

open Rule Lexeme

variable {text rest : Text} {st : Statement} {ss : List Statement}

theorem closes_comment : comment.Closes := by
  have hline : lineComment.Closes := by
    refine Closes.matched (closes_of_wordEnds ?_ fun s t rest h => ?_)
    · exact Starts.takes (C := fun _ => True) (Starts.bind
        ((starts_literal (c := '#') rfl trivial (by decide)).orElse
          (starts_literal (c := '-') rfl trivial (by decide))))
    · obtain ⟨mark, mid, -, hspan⟩ := bind_eq_ok_iff.1 h
      cases hspan
      intro c hc
      have hhead := List.head?_dropWhile_not (fun c => c != '\n') mid
      rw [Option.mem_def.1 hc] at hhead
      have hc : c = '\n' := by simpa using hhead
      exact hc ▸ by decide
  have hblock : blockComment.Closes := by
    refine Closes.matched (Closes.bind fun _ => Closes.bind fun _ s t rest h => ?_)
    rw [literal] at h
    split at h
    · next hprefix =>
      obtain ⟨u, rfl⟩ := List.isPrefixOf_iff_prefix.1 hprefix
      cases h
      rw [List.drop_left]
      exact ⟨['*'], '/', rfl, fun hword => absurd hword (by decide)⟩
    · cases h
  exact hline.orElse hblock

theorem closes_statementEnd : statementEnd.Closes :=
  Closes.bind fun _ => (closes_char (by decide)).map _

theorem closes_verbatimEnd : verbatimEnd.Closes :=
  Closes.bind fun _ => closes_statementEnd.map _

instance : Tails createTable where
  suffix s T rest h := by
    obtain ⟨m, m', hfront, hDs, hend⟩ := createTable_eq_ok_iff.1 h
    exact (Tails.suffix m' _ rest hend).trans
      ((Tails.suffix m _ m' hDs).trans (Tails.suffix s _ m hfront))

theorem closes_createTable : createTable.Closes := by
  have hend : tableEnd.Closes :=
    Closes.bind fun _ => Closes.bind fun _ => Closes.bind fun _ => closes_statementEnd.map _
  intro s T rest h
  obtain ⟨m, m', hfront, hDs, hread⟩ := createTable_eq_ok_iff.1 h
  obtain ⟨u, c, rfl, hc⟩ := hend m' _ rest hread
  obtain ⟨w, rfl⟩ := (Tails.suffix m _ _ hDs).trans (Tails.suffix s _ m hfront)
  exact ⟨w ++ u, c, (List.append_assoc w u _).symm, hc⟩

/-- **No word runs on behind a statement.** -/
theorem closes_statement : statement.Closes := by
  refine closes_firstOf fun p hp => ?_
  simp only [statements, List.mem_cons, List.not_mem_nil, or_false] at hp
  rcases hp with rfl | rfl | rfl | rfl | rfl | rfl | rfl | rfl | rfl | rfl
  · exact closes_comment.map _
  · exact Closes.bind fun _ => Closes.bind fun _ =>
      (Closes.within (Closes.bind fun _ => closes_statementEnd.map _) _).map _
  · exact Closes.bind fun _ => closes_verbatimEnd.map _
  · exact Closes.bind fun _ => closes_verbatimEnd.map _
  · exact Closes.bind fun _ => Closes.bind fun _ => Closes.bind fun _ => Closes.bind fun _ =>
      Closes.bind fun _ => Closes.bind fun _ => closes_verbatimEnd.map _
  · exact closes_createTable.map _
  · exact Closes.bind fun _ => Closes.bind fun _ => Closes.bind fun _ => closes_verbatimEnd.map _
  · exact Closes.bind fun _ => closes_verbatimEnd.map _
  · refine Closes.bind fun _ => Closes.bind fun _ => Closes.map (closes_of_wordEnds (takes_span1 _)
      fun s t rest h c hc => ?_) _
    obtain ⟨-, -, rfl⟩ := span1_eq_ok_iff.1 h
    have hhead := List.head?_dropWhile_not (fun c => !isSpace c) s
    rw [Option.mem_def.1 hc] at hhead
    exact isWordChar_of_isSpace (by simpa using hhead)
  · exact (closes_char (by decide)).map _

instance : Tails createDatabase := by
  rw [Exchange.createDatabase_eq]
  infer_instance

instance : Tails statement := by
  unfold statement statements useStatement setStatement dropTable alterTable insertStatement
  infer_instance

/-! ### What is left behind the first statements -/

/-- What is left of a text behind its first statements. -/
def restAfter : Nat → Text → Text
  | 0, text => text
  | k + 1, text =>
    match statement text.trimStart with
    | .ok _ rest => restAfter k rest
    | .mismatch _ | .abort _ => text

theorem restAfter_of_statement (h : statement text.trimStart = .ok st rest) (k : Nat) :
    restAfter (k + 1) text = restAfter k rest := by
  rw [restAfter, h]

theorem trimStart_suffix (t : Text) : t.trimStart <:+ t :=
  List.dropWhile_suffix _

theorem restAfter_suffix (k : Nat) (text : Text) : restAfter k text <:+ text := by
  induction k generalizing text with
  | zero => exact List.suffix_rfl
  | succ k ih =>
    rw [restAfter]
    split
    · next rest h => exact (ih rest).trans ((Tails.suffix _ _ rest h).trans (trimStart_suffix text))
    · exact List.suffix_rfl
    · exact List.suffix_rfl

theorem read_eq_ok_iff : read text = .ok ss ↔ readStatements text = .ok ss := by
  rw [read]
  cases readStatements text <;> simp

theorem read_of_toOption (h : (read text).toOption = some ss) : read text = .ok ss := by
  cases hread : read text with
  | error why => rw [hread] at h; cases h
  | ok ss' =>
    rw [hread] at h
    exact congrArg Except.ok (Option.some.inj h)

/-- The reading goes on behind the first statement. -/
theorem readStatements_of_statement (h : statement text.trimStart = .ok st rest) :
    readStatements text = (readStatements rest).map (st :: ·) := by
  have htakes := closes_statement.takes _ st rest h
  have hlt : rest.length < text.length := Nat.lt_of_lt_of_le htakes (trimStart_suffix text).length_le
  cases htrim : text.trimStart with
  | nil => rw [htrim] at htakes; cases htakes
  | cons c t =>
    rw [htrim] at h
    rw [readStatements, htrim]
    simp only [h, hlt, ↓reduceDIte]

/-- **What is left behind the first statements is read as the other ones.** -/
theorem readStatements_restAfter {k : Nat} (h : readStatements text = .ok ss) (hk : k ≤ ss.length) :
    readStatements (restAfter k text) = .ok (ss.drop k) := by
  induction k generalizing text ss with
  | zero => exact h
  | succ k ih =>
    cases ss with
    | nil => cases hk
    | cons st ss =>
      obtain ⟨rest, hst, hrest⟩ := exists_of_readStatements h
      rw [restAfter_of_statement hst]
      exact ih hrest (Nat.le_of_succ_le_succ hk)

end Source

namespace Exchange

open Rule Lexeme Source

variable {x : Exchange} {s r : Text} {ts us : List Source.Statement} {n : Nat}

/-- The first statement of a front, and what is left of it. -/
theorem exists_of_readStatements_front {st : Source.Statement}
    (h : readStatements (s ++ x.old) = .ok (st :: ts))
    (hrest : restAfter (n + 1) (s ++ x.old) = r ++ x.old) :
    ∃ m, x.Reads statement s.trimStart st m ∧ (∀ z, (s ++ z).trimStart = s.trimStart ++ z) ∧
      readStatements (m ++ x.old) = .ok ts ∧ restAfter n (m ++ x.old) = r ++ x.old ∧ m <:+ s ∧
        ∀ k, restAfter (k + 1) (s ++ x.old) = restAfter k (m ++ x.old) := by
  obtain ⟨rest, hst, hts⟩ := exists_of_readStatements h
  have hafter := restAfter_of_statement hst
  rw [hafter] at hrest
  obtain ⟨v, hv⟩ := hrest ▸ restAfter_suffix n rest
  rw [← List.append_assoc] at hv
  subst hv
  -- the front is not blank, or the statement would have been read behind it
  have hlen := closes_statement.takes _ st _ hst
  have htrim : ∀ z, (s ++ z).trimStart = s.trimStart ++ z := by
    intro z
    have hne : ¬ (s.dropWhile Text.isBlankChar).isEmpty = true := by
      intro hblank
      rw [Text.trimStart, List.dropWhile_append, if_pos hblank, List.length_append] at hlen
      have hold := (trimStart_suffix x.old).length_le
      rw [Text.trimStart] at hold
      omega
    rw [Text.trimStart, List.dropWhile_append, if_neg hne]
    rfl
  rw [htrim] at hst
  have hst : x.Reads statement s.trimStart st (v ++ r) := hst
  exact ⟨v ++ r, hst, htrim, hts, hrest, hst.suffix.trans (trimStart_suffix s), hafter⟩

/-- **The first statements of a text survive a fair exchange** if the columns of their tables stay
what they are. -/
theorem Fair.readStatements_new (hx : x.Fair) (hbroken : x.Broken) (hs : s <:+ x.whole)
    (h : readStatements (s ++ x.old) = .ok ts) (hn : n ≤ ts.length)
    (hrest : restAfter n (s ++ x.old) = r ++ x.old)
    (hcolumns : ∀ k < n, ∀ d, d <:+ x.whole →
      d ++ x.old ∈ columnPlaces (restAfter k (s ++ x.old)).trimStart → x.ColumnStays d) :
    readStatements (s ++ x.new) = (readStatements (r ++ x.new)).map (ts.take n ++ ·) := by
  induction n generalizing s ts with
  | zero =>
    obtain rfl : s = r := List.append_cancel_right hrest
    cases readStatements (s ++ x.new) <;> rfl
  | succ n ih =>
    cases ts with
    | nil => cases hn
    | cons st ts =>
      obtain ⟨m, hst, htrim, hts, hrest', hm, hafter⟩ := exists_of_readStatements_front h hrest
      have hfirst : statement (s ++ x.new).trimStart = .ok st (m ++ x.new) := by
        rw [htrim]
        refine hx.statement_new hbroken ((trimStart_suffix s).trans hs) (fun d hd hmem => ?_) hst
        exact hcolumns 0 (Nat.succ_pos n) d hd (by rwa [restAfter, htrim])
      have hothers := ih (hm.trans hs) hts (Nat.le_of_succ_le_succ hn) hrest' fun k hk d hd hmem =>
        hcolumns (k + 1) (Nat.succ_lt_succ hk) d hd (by rwa [hafter])
      rw [readStatements_of_statement hfirst, hothers]
      cases readStatements (r ++ x.new) <;> rfl

/-- **The columns of the tables stay what they are** where the same statements are read with the new
text behind. -/
theorem Fair.isColumn_of_readStatements (hx : x.Fair) (hbroken : x.Broken) (hs : s <:+ x.whole)
    (h : readStatements (s ++ x.old) = .ok ts) (hn : n ≤ ts.length)
    (hrest : restAfter n (s ++ x.old) = r ++ x.old)
    (hnew : readStatements (s ++ x.new) = .ok (ts.take n ++ us)) :
    ∀ k < n, ∀ d, d <:+ x.whole → d ++ x.old ∈ columnPlaces (restAfter k (s ++ x.old)).trimStart →
      IsColumn (d ++ x.new) := by
  induction n generalizing s ts with
  | zero => exact fun k hk => absurd hk (Nat.not_lt_zero k)
  | succ n ih =>
    cases ts with
    | nil => cases hn
    | cons st ts =>
      obtain ⟨m, hst, htrim, hts, hrest', hm, hafter⟩ := exists_of_readStatements_front h hrest
      obtain ⟨rest, hstNew, htsNew⟩ := exists_of_readStatements hnew
      rw [htrim] at hstNew
      have hs' := (trimStart_suffix s).trans hs
      have hfirst : ∀ d, d <:+ x.whole → d ++ x.old ∈ columnPlaces (s.trimStart ++ x.old) →
          IsColumn (d ++ x.new) := by
        intro d hd hmem
        obtain ⟨T, last, hT⟩ := exists_of_mem_columnPlaces hmem
        have hst' : statement (s.trimStart ++ x.old) = .ok st (m ++ x.old) := hst
        rw [hst', Outcome.ok.injEq] at hT
        obtain ⟨rfl, -⟩ := hT
        exact hx.isColumn_of_createTable hs' hst (createTable_of_statement hstNew) d hd hmem
      have hsame := hx.statement_new hbroken hs'
        (fun d hd hmem => columnStays_of_isColumn (hfirst d hd hmem)) hst
      rw [hstNew, Outcome.ok.injEq] at hsame
      rw [hsame.2] at htsNew
      intro k hk d hd hmem
      cases k with
      | zero => exact hfirst d hd (by rwa [restAfter, htrim] at hmem)
      | succ k =>
        rw [hafter] at hmem
        exact ih (hm.trans hs) hts (Nat.le_of_succ_le_succ hn) hrest' htsNew k
          (Nat.lt_of_succ_lt_succ hk) d hd hmem

end Exchange

end SchemaDelta
