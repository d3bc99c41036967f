/-
**Exchanging the text behind what is kept as it is written.**

The rest of a statement that is not looked into is passed over piece by piece, up to its semicolon.
A gap within it consists of such pieces, so that the words in front of the semicolon are read or
refused by what stands there.

Main results:

* `SchemaDelta.Exchange.KeepsComments.keeps_verbatimEnd` — **the rest of a statement survives the
  exchange**, up to and including its semicolon;
* `SchemaDelta.Exchange.KeepsComments.staysOut_words` — a phrase in front of the semicolon stays out.
-/

import SchemaDelta.Proofs.Exchange.Table
import SchemaDelta.Proofs.Verbatim

set_option relaxedAutoImplicit false
set_option autoImplicit false

namespace SchemaDelta

namespace Lexeme

open Rule

variable {s t m last : Text}

instance : Tails (firstOf verbatimPieces) := by
  unfold verbatimPieces
  infer_instance

instance : Tails verbatim := by
  unfold verbatim
  infer_instance

/-! ### Pieces and gaps -/

theorem isPlain_of_isWordChar {c : Char} (h : isWordChar c = true) : isPlain c = true :=
  isPlain_of_any (by decide) h

theorem isPlain_of_isSpace {c : Char} (h : isSpace c = true) : isPlain c = true :=
  isPlain_of_any (by decide) h

/-- Plain characters in front may be left out. -/
theorem Reaches.of_plain (ht : t.all isPlain = true) (h : Reaches (t ++ s) last) :
    Reaches s last := by
  have hdrop := h.dropWhile
  rw [List.dropWhile_append_of_pos (List.all_eq_true.1 ht)] at hdrop
  have htake : (s.takeWhile isPlain).all isPlain = true :=
    List.all_eq_true.2 fun c hc => List.mem_takeWhile_imp hc
  rw [← List.takeWhile_append_dropWhile (p := isPlain) (l := s)]
  exact hdrop.plain htake

theorem Reaches.suffix (h : Reaches s last) : last <:+ s := by
  obtain ⟨us, hus⟩ := h
  exact Tails.suffix s us last hus

/-- A gap consists of pieces. -/
theorem Reaches.of_gap0 (h : Reaches s last) (hgap : gap0 s = .ok () m) : Reaches m last := by
  refine gap0_induction (P := fun s => Reaches s last → Reaches m last) hgap id
    (fun hspaces ih h => ih ?_) (fun hcomment ih h => ih ?_) h
  · rename_i u a v
    obtain ⟨-, -, rfl⟩ := span1_eq_ok_iff.1 hspaces
    rw [← List.takeWhile_append_dropWhile (p := isSpace) (l := u)] at h
    exact h.of_plain (List.all_eq_true.2 fun c hc => isPlain_of_isSpace (List.mem_takeWhile_imp hc))
  · rename_i u a v
    obtain ⟨us, hus⟩ := h
    have hpiece : firstOf verbatimPieces u = .ok () v :=
      orElse_of_ok (by rw [discard_apply, hcomment]) _
    obtain ⟨us', -, hus'⟩ :=
      exists_of_many_eq_ok hpiece (starts_comment.takes u a v hcomment) hus
    exact ⟨us', hus'⟩

/-- Where no piece is read, there is no gap. -/
theorem solid_of_refuses_verbatimPieces (h : (firstOf verbatimPieces).Refuses s) : Solid s := by
  have hpiece : ∀ {α : Type} {p : Rule α}, Functor.discard p ∈ verbatimPieces → p.Refuses s :=
    fun hp => (h.of_firstOf _ hp).of_bind_pure
  have hspaces : spaces.Refuses s := by
    refine (mild_span1 isSpace).refuses fun a rest hread => ?_
    obtain ⟨c, t, rfl, hc, -⟩ :=
      starts_span1_of_not_word (fun c => isWordChar_of_isSpace) s a rest hread
    obtain ⟨why, hplain⟩ := hpiece (p := span1 isPlain) (by simp [verbatimPieces])
    rw [span1, if_pos (isPlain_of_isSpace hc)] at hplain
    cases hplain
  exact hspaces.orElse (hpiece (p := comment) (by simp [verbatimPieces]))

end Lexeme

namespace Exchange

open Rule Lexeme Source

variable {x : Exchange} {L : Text → Prop} {s r m t : Text}

/-! ### Pieces -/

theorem starts_quotedPiece {q : Char} (hq : Text.isNameQuote q = true) :
    Rule.Starts (fun c => c = q) (Functor.discard (quotedBody q)) :=
  (starts_quotedBody hq).discard

theorem starts_plainPiece : Rule.Starts (fun c => isPlain c = true)
    (Functor.discard (span1 isPlain)) :=
  (starts_span1 fun _ => isPlain_of_isWordChar).discard

theorem starts_dashPiece : Rule.Starts (fun c => c = '-' ∨ c = '/')
    (Functor.discard (oneOf "-/")) := by
  refine Starts.discard (starts_satisfy fun c hc => ?_)
  have hmem : c = '-' ∨ c = '/' := by simpa using hc
  rcases hmem with rfl | rfl <;> decide

theorem takes_verbatimPiece : Takes 1 (firstOf verbatimPieces) := by
  refine Starts.takes (C := fun _ => True) (starts_firstOf fun p hp => ?_)
  simp only [verbatimPieces, List.mem_cons, List.not_mem_nil, or_false] at hp
  rcases hp with rfl | rfl | rfl | rfl | rfl | rfl
  · exact starts_comment.discard.mono fun _ _ => trivial
  · exact (starts_quotedPiece (by decide)).mono fun _ _ => trivial
  · exact (starts_quotedPiece (by decide)).mono fun _ _ => trivial
  · exact (starts_quotedPiece (by decide)).mono fun _ _ => trivial
  · exact starts_plainPiece.mono fun _ _ => trivial
  · exact starts_dashPiece.mono fun _ _ => trivial

/-- **A piece survives the exchange** in front of some text. -/
theorem KeepsComments.keeps_verbatimPiece (hx : x.KeepsComments) :
    x.Keeps (firstOf verbatimPieces) (· ≠ []) := by
  have hquoted : ∀ q : Char, x.Keeps (Functor.discard (quotedBody q)) (· ≠ []) :=
    fun q => (keeps_quotedBody q).discard
  -- a quoted text stays out where a piece of another kind is read, since their starts differ
  have hother : ∀ (q : Char) {p : Rule Unit} {C : Char → Prop}, p.Starts C → ¬ C q →
      ∀ s a r, x.Reads p s a r → x.StaysOut (Functor.discard (quotedBody q)) s := by
    intro q p C hp hq s a r h
    obtain ⟨c, t, rfl, hc, -⟩ := Starts.ne_nil hp h
    refine StaysOut.of_refuses fun z => (refuses_quotedBody ?_ (t ++ z)).discard
    rintro rfl
    exact hq hc
  refine keeps_firstOf (fun p hp => ?_) ?_
  · simp only [verbatimPieces, List.mem_cons, List.not_mem_nil, or_false] at hp
    rcases hp with rfl | rfl | rfl | rfl | rfl | rfl
    · exact keeps_comment.discard
    · exact hquoted _
    · exact hquoted _
    · exact hquoted _
    · exact (keeps_span1 isPlain).discard
    · exact Keeps.discard (keeps_satisfy _)
  refine .cons (fun q _ s a r hs _ _ => (hx s hs).map _) (.cons (fun q hq s a r _ h _ => ?_)
    (.cons (fun q hq s a r _ h _ => ?_) (.cons (fun q hq s a r _ h _ => ?_)
      (.cons (fun q hq s a r _ h _ => ?_) (List.pairwise_singleton _ _)))))
  · simp only [List.mem_cons, List.not_mem_nil, or_false] at hq
    rcases hq with rfl | rfl | rfl | rfl
    · exact hother _ (starts_quotedPiece (by decide)) (by decide) s a r h
    · exact hother _ (starts_quotedPiece (by decide)) (by decide) s a r h
    · exact hother _ starts_plainPiece (by decide) s a r h
    · exact hother _ starts_dashPiece (by decide) s a r h
  · simp only [List.mem_cons, List.not_mem_nil, or_false] at hq
    rcases hq with rfl | rfl | rfl
    · exact hother _ (starts_quotedPiece (by decide)) (by decide) s a r h
    · exact hother _ starts_plainPiece (by decide) s a r h
    · exact hother _ starts_dashPiece (by decide) s a r h
  · simp only [List.mem_cons, List.not_mem_nil, or_false] at hq
    rcases hq with rfl | rfl
    · exact hother _ starts_plainPiece (by decide) s a r h
    · exact hother _ starts_dashPiece (by decide) s a r h
  · obtain rfl := List.mem_singleton.1 hq
    obtain ⟨c, t, rfl, hc, -⟩ := Starts.ne_nil starts_dashPiece h
    refine StaysOut.of_refuses fun z => Refuses.discard ?_
    rcases hc with rfl | rfl <;> exact refuses_span1 (by decide)

/-! ### Up to the semicolon -/

theorem KeepsComments.keeps_verbatim (hx : x.KeepsComments) :
    x.Keeps verbatim fun r => ∃ t, r = ';' :: t := by
  refine Keeps.matched (hx.keeps_verbatimPiece.many takes_verbatimPiece (fun m as r _ h hr => ?_) ?_)
  · obtain ⟨t, rfl⟩ := hr
    exact ne_nil_of_reads h (List.cons_ne_nil _ _)
  · rintro s - ⟨t, rfl⟩
    exact StaysOut.of_refuses fun z => refuses_verbatimPieces (t ++ z)

instance : Tails verbatimEnd := by
  unfold verbatimEnd
  infer_instance

/-- The pieces of a statement end at its semicolon. -/
theorem reads_verbatimEnd {a : Text} (h : x.Reads verbatimEnd s a r) :
    x.Reads verbatim s a (';' :: r) ∧ Reaches (s ++ x.old) (';' :: r ++ x.old) := by
  obtain ⟨text, m, hverbatim, h₁, -⟩ := reads_bind h
  obtain ⟨u, m', hend, hpure, -⟩ := reads_bind h₁
  obtain ⟨rfl, rfl⟩ := reads_pure hpure
  obtain ⟨g, m₂, hgap, h₂, -⟩ := reads_bind hend
  obtain ⟨c, m₃, hsemicolon, hpure, -⟩ := reads_bind h₂
  obtain ⟨-, rfl⟩ := reads_pure hpure
  obtain ⟨us, hus, -⟩ := matched_eq_ok hverbatim
  -- the gap is none, since it would have been passed over with the rest
  have hsolid := solid_of_refuses_verbatimPieces (refuses_of_many_eq_ok takes_verbatimPiece hus)
  have hsame : gap0 (m ++ x.old) = .ok () (m₂ ++ x.old) := hgap
  rw [gap0_of_solid hsolid, Outcome.ok.injEq] at hsame
  have hm : m = ';' :: r := (List.append_cancel_right hsame.2).trans (reads_char hsemicolon)
  exact ⟨hm ▸ hverbatim, us, hm ▸ hus⟩

theorem takes_verbatimEnd : Takes 1 verbatimEnd :=
  (takes_zero verbatim).bind fun _ => Takes.bind (n := 1) (m := 0)
    ((takes_zero gap0).bind fun _ => starts_semicolon.takes) fun _ => takes_zero _

/-- **The rest of a statement survives the exchange**, up to and including its semicolon. -/
theorem KeepsComments.keeps_verbatimEnd (hx : x.KeepsComments) : x.Keeps verbatimEnd L := by
  intro s a r hs _ h
  obtain ⟨hverbatim, -⟩ := reads_verbatimEnd h
  have hnew := hx.keeps_verbatim s a (';' :: r) hs ⟨r, rfl⟩ hverbatim
  exact (bind_of_ok hnew _).trans (bind_of_ok (statementEnd_append (r ++ x.new)) _)

/-- In front of a semicolon a gap ends in front of it as well. -/
theorem exists_gap0_of_reaches (h : Reaches (s ++ x.old) (';' :: t ++ x.old)) :
    ∃ m, x.Reads gap0 s () m ∧ Breaks m ∧ Reaches (m ++ x.old) (';' :: t ++ x.old) := by
  obtain ⟨mid, hgap⟩ := exists_gap0 (s ++ x.old)
  have hmid := h.of_gap0 hgap
  obtain ⟨w, rfl⟩ := hmid.suffix
  rw [← List.append_assoc] at hgap hmid
  exact ⟨w ++ ';' :: t, hgap, ⟨';', by simp, by decide⟩, hmid⟩

/-- **In front of a semicolon a phrase stays out**: what it would have to go on with stands before
the semicolon. -/
theorem KeepsComments.staysOut_words (hx : x.KeepsComments) {w : Text} {ws : List Text}
    (hws : ∀ v ∈ w :: ws, IsWord v) (hs : s <:+ x.whole)
    (h : Reaches (s ++ x.old) (';' :: t ++ x.old)) :
    x.StaysOut (gap1 >>= fun _ => wholeWords (w :: ws)) s := by
  induction ws generalizing s w with
  | nil =>
    obtain ⟨m, hgap, hbreaks, -⟩ := exists_gap0_of_reaches h
    exact hx.staysOut_gap1_bind hs hgap hbreaks.ne_nil
      ((staysOut_wholeWord (hws w List.mem_cons_self) hbreaks).map _)
  | cons v ws ih =>
    obtain ⟨m, hgap, hbreaks, hreaches⟩ := exists_gap0_of_reaches h
    have hw := hws w List.mem_cons_self
    refine hx.staysOut_gap1_bind hs hgap hbreaks.ne_nil (StaysOut.bind
      (f := fun _ => gap1 >>= fun _ => wholeWords (v :: ws)) (staysOut_wholeWord hw hbreaks)
      fun t' rest hword hrefuses => ?_)
    obtain ⟨u, rfl, rfl, hu, hends, hspells⟩ := exists_of_wholeWord hw hbreaks hword
    obtain ⟨-, -, hchars, -⟩ := wordChars_of_wholeWord hw hword
    -- the word is passed over, so that the rest of the phrase is looked for in front of the semicolon
    have hu' : u <:+ x.whole := ((List.suffix_append t' u).trans hgap.suffix).trans hs
    rw [List.append_assoc] at hreaches ⊢
    have hrest := hreaches.of_plain (List.all_eq_true.2 fun c hc => isPlain_of_isWordChar (hchars c hc))
    exact refuses_bind_of_ok (wholeWord_append hspells (hends.append hu x.new))
      (ih (fun v' hv' => hws v' (List.mem_cons_of_mem w hv')) hu' hrest hrefuses)

end Exchange

end SchemaDelta
