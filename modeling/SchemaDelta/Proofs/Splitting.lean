/-
**A schema text splits where its statements end.**

What was read of a statement does not depend on what follows it.  When the text behind it is cut
off, a rule that was refused may have looked at that text, and could only be read without it if it
reads less of the front than with it.  No rule does: a comment that is closed in the front is closed
with more text behind it as well, a word that ends the front is the same word if no word character
follows, and an index or a foreign key is refused by what stands in front of its end.

Main definitions:

* `SchemaDelta.Exchange.cut` — the text behind a front is cut off.

Main results:

* `SchemaDelta.Exchange.fair_cut` — cutting is fair where no word runs on behind the front;
* `SchemaDelta.Source.exists_read_split` — **the front that ends with a statement is read as the
  statements up to it**, and what is left as the other ones.
-/

import SchemaDelta.Proofs.Exchange.Reading

set_option relaxedAutoImplicit false
set_option autoImplicit false

namespace SchemaDelta

namespace Lexeme

open Rule

variable {s t r : Text}

/-- A comment is one with more text behind it as well, though it may go on there. -/
theorem not_refuses_comment (h : comment s = .ok t r) (z : Text) : ¬ comment.Refuses (s ++ z) := by
  intro hrefuses
  obtain ⟨⟨why, hline⟩, hblock⟩ := hrefuses.of_orElse
  rcases orElse_eq_ok h with h | ⟨-, h⟩
  · obtain ⟨a, h, -⟩ := matched_eq_ok h
    obtain ⟨mark, mid, hmark, -⟩ := bind_eq_ok_iff.1 h
    have hnew : (literal "#" <|> literal "--") (s ++ z) = .ok mark (mid ++ z) :=
      Exchange.keeps_lineMark.append (L := fun _ => True) trivial hmark
    rw [lineComment, matched, bind_of_ok hnew, span] at hline
    cases hline
  · exact hblock.ne_ok (Exchange.keeps_blockComment.append (L := fun _ => True) trivial h)

/-- A keyword is read with more text behind it, where no word runs on. -/
theorem keyword_append_right {word : String} (hword : word.toList.all isPlainLetter = true)
    (h : keyword word s = .ok t r) {z : Text} (hends : WordEnds (r ++ z)) :
    keyword word (s ++ z) = .ok t (r ++ z) := by
  obtain ⟨⟨rfl, hletters⟩, -⟩ := (keyword_eq_ok_iff hword).1 h
  exact (keyword_eq_ok_iff hword).2 ⟨⟨List.append_assoc t r z, hletters⟩, hends⟩

end Lexeme

namespace Exchange

open Rule Lexeme Source

variable {α : Type} {front behind s : Text}

/-- The text behind a front is cut off. -/
def cut (front behind : Text) : Exchange :=
  (appended front behind).swap

/-- What would be read without the text behind must not be refused with it. -/
theorem staysOut_cut {p : Rule α} (hmild : p.Mild)
    (h : ∀ a r, p s = .ok a r → ¬ p.Refuses (s ++ behind)) : (cut front behind).StaysOut p s :=
  staysOut_of_mild hmild fun a r hread => h a r (by rwa [cut, swap, appended, List.append_nil] at hread)

/-- **Cutting is fair** where no word runs on behind the front. -/
theorem fair_cut (hends : ∀ u c, front = u ++ [c] → isWordChar c = true → WordEnds behind) :
    (cut front behind).Fair where
  comments s _ := staysOut_cut mild_comment fun t r h => not_refuses_comment h behind
  word s hs _ w hw := by
    have hplain : w.toList.all isPlainLetter = true ∧ IsWord w.toList := by
      simp only [List.mem_cons, List.not_mem_nil, or_false] at hw
      rcases hw with rfl | rfl | rfl <;> decide
    refine staysOut_cut (mild_gap1.bind fun _ => mild_keyword w) fun t r h hrefuses => ?_
    obtain ⟨⟨⟩, m, hgap, hword⟩ := bind_eq_ok_iff.1 h
    obtain ⟨rfl, ht, hchars, hends'⟩ := wordChars_of_wholeWord hplain.2 hword
    have hfirm : Firm (t ++ r) := by
      obtain ⟨c, u, rfl⟩ := List.exists_cons_of_ne_nil ht
      exact firm_cons (isGapStart_of_isWordChar (hchars c List.mem_cons_self)) (u ++ r)
    have hendsNew : WordEnds (r ++ behind) := by
      cases r with
      | cons d r => exact hends'.append (List.cons_ne_nil d r) behind
      | nil =>
        -- the word ends the front, so that its last character is that of the front
        obtain ⟨v, hv⟩ := (Tails.suffix s () _ hgap).trans hs
        refine hends (v ++ t.dropLast) (t.getLast ht) ?_ (hchars _ (List.getLast_mem ht))
        rw [List.append_assoc, List.dropLast_append_getLast ht, ← List.append_nil t]
        exact hv.symm
    exact hrefuses.ne_ok (bind_eq_ok_iff.2 ⟨(), t ++ r ++ behind, keeps_gap1.append hfirm hgap,
      keyword_append_right hplain.1 hword hendsNew⟩)
  call s _ _ := staysOut_cut (mild_gap0.bind fun _ => mild_emptyCall) fun u r h hrefuses =>
    hrefuses.ne_ok (keeps_call.append (L := fun _ => True) trivial h)

/-- What is no index and no foreign key becomes none when the text behind it is cut off. -/
theorem columnStays_cut (d : Text) : (cut front behind).ColumnStays d :=
  ⟨staysOut_cut mild_indexDefinition fun _ _ h =>
      not_refuses_indexDefinition (x := appended d behind) List.suffix_rfl (reads_appended.2 h),
    staysOut_cut mild_foreignKeyDefinition fun _ _ h =>
      not_refuses_foreignKeyDefinition (x := appended d behind) List.suffix_rfl (reads_appended.2 h)⟩

end Exchange

namespace Source

open Rule Lexeme Exchange

variable {text : Text} {ts : List Statement} {k : Nat}

/-- The place behind a statement is not inside of a word. -/
theorem exists_of_restAfter (h : readStatements text = .ok ts) (hk : k < ts.length) :
    ∃ u c, text = u ++ [c] ++ restAfter (k + 1) text ∧
      (isWordChar c = true → WordEnds (restAfter (k + 1) text)) := by
  induction k generalizing text ts with
  | zero =>
    cases ts with
    | nil => cases hk
    | cons st ts =>
      obtain ⟨rest, hst, -⟩ := exists_of_readStatements h
      obtain ⟨u, c, hu, hc⟩ := closes_statement _ st rest hst
      obtain ⟨w, hw⟩ := trimStart_suffix text
      rw [restAfter_of_statement hst, restAfter]
      refine ⟨w ++ u, c, ?_, hc⟩
      rw [List.append_assoc, List.append_assoc, List.singleton_append, ← hu, hw]
  | succ k ih =>
    cases ts with
    | nil => cases hk
    | cons st ts =>
      obtain ⟨rest, hst, hrest⟩ := exists_of_readStatements h
      obtain ⟨u, c, hu, hc⟩ := ih hrest (Nat.lt_of_succ_lt_succ hk)
      obtain ⟨w, hw⟩ := (Tails.suffix _ st rest hst).trans (trimStart_suffix text)
      rw [restAfter_of_statement hst]
      refine ⟨w ++ u, c, ?_, hc⟩
      rw [List.append_assoc w, List.append_assoc w, ← hu, hw]

/-- **A text that is read splits where its statements end**: the front is read as the statements up
to that place, and what is left as the other ones. -/
theorem exists_read_split (h : read text = .ok ts) (hk : k ≤ ts.length) :
    ∃ front, text = front ++ restAfter k text ∧ read front = .ok (ts.take k) ∧
      read (restAfter k text) = .ok (ts.drop k) := by
  have h := read_eq_ok_iff.1 h
  obtain ⟨front, hfront⟩ := restAfter_suffix k text
  have hends : ∀ u c, front = u ++ [c] → isWordChar c = true → WordEnds (restAfter k text) := by
    intro u c hu
    cases k with
    | zero =>
      have hnil : front = [] := List.append_cancel_right hfront
      rw [hnil] at hu
      cases u <;> cases hu
    | succ k =>
      obtain ⟨v, d, hv, hd⟩ := exists_of_restAfter h hk
      have hsame := List.append_cancel_right (hfront.trans hv)
      rw [hu, List.append_singleton_inj] at hsame
      exact hsame.2 ▸ hd
  have hnew := (fair_cut hends).readStatements_new (r := []) (n := k) (fun c hc => by cases hc)
    List.suffix_rfl (by rw [cut, swap, appended, hfront]; exact h) hk (by rw [cut, swap, appended, hfront]; rfl)
    fun _ _ d _ _ => columnStays_cut d
  rw [cut, swap, appended, List.append_nil, List.append_nil, readStatements_nil] at hnew
  refine ⟨front, hfront.symm, read_eq_ok_iff.2 ?_, read_eq_ok_iff.2 (readStatements_restAfter h hk)⟩
  rw [hnew]
  exact congrArg Except.ok (List.append_nil _)

theorem exists_read_split_sample :
    ∃ text ts, read text = .ok ts ∧ 2 ≤ ts.length ∧
      ∃ front, text = front ++ restAfter 2 text ∧ read front = .ok (ts.take 2) ∧
        read (restAfter 2 text) = .ok (ts.drop 2) := by
  have h : read "SET a = ';';\nCREATE TABLE t (a ENUM('b') DEFAULT now--x\n);DROP TABLE t;".toList =
      .ok [.set " a = ';'".toList,
        .createTable ⟨false, false, ['t'],
          [.field ⟨['a'], "ENUM".toList, ["'b'".toList], [], [.default (.token "now--x".toList)]⟩],
          []⟩,
        .dropTable " t".toList] :=
    read_of_toOption (by decide +kernel)
  exact ⟨_, _, h, by decide, exists_read_split h (by decide)⟩

end Source

end SchemaDelta
