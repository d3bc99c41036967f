/-
**Exchanging the text behind gaps.**

A gap is read in the same way whatever stands behind, if it ends in front of a text that is neither
white space nor a comment whatever stands behind.  What may be left out in front of such a text is
left out after the exchange, since the gap leads to the same place as before.

Main definitions:

* `SchemaDelta.Lexeme.Firm` — a text is solid whatever stands behind it;
* `SchemaDelta.Lexeme.GapTo` — after a gap a text goes on with another one, whatever stands behind;
* `SchemaDelta.Lexeme.Leads` — it goes on with a character of a class;
* `SchemaDelta.Exchange.KeepsComments` — the new text closes no comment of the front;
* `SchemaDelta.Exchange.Meets` — a rule is read only where the text leads to a class.

Main results:

* `SchemaDelta.Exchange.keeps_gap0_bind`, `SchemaDelta.Exchange.keeps_gap1_bind` — **what follows a
  gap survives the exchange together with it**;
* `SchemaDelta.Exchange.keeps_optional_gap1_bind` — so does what may be left out after a gap;
* `SchemaDelta.Exchange.KeepsComments.keeps_gap1` — a gap survives the exchange on its own where no
  comment is closed;
* `SchemaDelta.Exchange.keeps_keywords` — so does a phrase.
-/

import SchemaDelta.Proofs.Exchange.Word
import SchemaDelta.Proofs.Quoted

set_option relaxedAutoImplicit false
set_option autoImplicit false

namespace SchemaDelta

theorem Text.append_of_splitBefore? {mark s front rest : Text}
    (h : splitBefore? mark s = some (front, rest)) : front ++ rest = s := by
  induction s generalizing front with
  | nil =>
    rw [splitBefore?] at h
    split at h <;> cases h
    rfl
  | cons c s ih =>
    rw [splitBefore?] at h
    split at h
    · cases h
      rfl
    · obtain ⟨parts, hparts, heq⟩ := Option.map_eq_some_iff.1 h
      cases heq
      rw [List.cons_append, ih hparts]

namespace Lexeme

open Rule

variable {s t r m y : Text}

instance (mark : String) : Tails (upTo mark) where
  suffix _ _ _ h := ⟨_, Text.append_of_splitBefore? (upTo_eq_ok h)⟩

instance : Tails lineComment := by
  unfold lineComment
  infer_instance

instance : Tails blockComment := by
  unfold blockComment
  infer_instance

instance : Tails comment := by
  unfold comment
  infer_instance

instance : Tails spaces := by
  unfold spaces
  infer_instance

instance : Tails gap0 := by
  unfold gap0
  infer_instance

instance : Tails gap1 := by
  unfold gap1
  infer_instance

theorem isWordChar_of_isSpace {c : Char} (h : isSpace c = true) : isWordChar c = false := by
  simp only [isSpace, Bool.or_eq_true, beq_iff_eq] at h
  rcases h with ((rfl | rfl) | rfl) | rfl <;> decide

theorem starts_literal {word : String} {c : Char} {cs : Text} {C : Char → Prop}
    (h : word.toList = c :: cs) (hclass : C c) (hword : isWordChar c = false) :
    (literal word).Starts C := by
  intro s t rest ht
  rw [literal] at ht
  split at ht
  · next hprefix =>
    obtain ⟨u, rfl⟩ := List.isPrefixOf_iff_prefix.1 hprefix
    cases ht
    rw [List.drop_left, h]
    refine ⟨c, cs ++ u, rfl, hclass, List.suffix_append cs u, ?_⟩
    rw [List.cons_append, List.dropWhile_cons_of_neg (by simp [hword])]
    exact (List.suffix_append cs u).trans (List.suffix_cons c _)
  · cases ht

/-- A comment starts with one of its marks. -/
theorem starts_comment : comment.Starts fun c => isGapStart c = true ∧ isSpace c = false := by
  refine Starts.orElse ?_ ?_
  · refine Starts.matched (Starts.bind (Starts.orElse ?_ ?_))
    · exact starts_literal (c := '#') rfl (by decide) (by decide)
    · exact starts_literal (c := '-') rfl (by decide) (by decide)
  · exact Starts.matched (Starts.bind (starts_literal (c := '/') rfl (by decide) (by decide)))

theorem starts_spaces : spaces.Starts fun c => isGapStart c = true := by
  refine (starts_span1_of_not_word fun c => isWordChar_of_isSpace).mono fun c hc => ?_
  rw [isGapStart, hc]
  rfl

theorem starts_gap1 : gap1.Starts fun c => isGapStart c = true := by
  have hpiece : (spaces <|> comment).Starts fun c => isGapStart c = true :=
    starts_spaces.orElse (starts_comment.mono fun c hc => hc.1)
  exact Starts.discard (Starts.bind hpiece)

/-! ### Solid texts -/

theorem solid_of_gap0 (h : gap0 s = .ok () t) : Solid t := by
  obtain ⟨as, h⟩ := discard_eq_ok h
  exact refuses_of_many_eq_ok takes_gap h

/-- A gap is none, or it is one that has to be there. -/
theorem solid_or_gap1_of_gap0 (h : gap0 s = .ok () t) : Solid s ∧ t = s ∨ gap1 s = .ok () t := by
  obtain ⟨as, h⟩ := discard_eq_ok h
  cases hp : (spaces <|> comment) s with
  | ok a rest =>
    have hlt : rest.length < s.length := takes_gap s a rest hp
    obtain ⟨bs, -, hmany⟩ := exists_of_many_eq_ok hp hlt h
    right
    rw [gap1, discard_apply, many1, bind_of_ok hp, bind_of_ok hmany]
    rfl
  | mismatch why =>
    rw [many_of_mismatch hp] at h
    cases h
    exact .inl ⟨⟨why, hp⟩, rfl⟩
  | abort why =>
    rw [many_of_abort hp] at h
    cases h

theorem gap0_of_gap1 (h : gap1 s = .ok () t) : gap0 s = .ok () t := by
  obtain ⟨as, h⟩ := discard_eq_ok h
  obtain ⟨a, mid, ha, h⟩ := bind_eq_ok_iff.1 h
  obtain ⟨bs, last, hbs, hpure⟩ := bind_eq_ok_iff.1 h
  cases hpure
  rw [gap0, discard_apply, many_eq_cons ha (takes_gap s a mid ha) hbs]

theorem mild_comment : comment.Mild := by
  refine Mild.orElse (Mild.matched ?_) (Mild.matched ?_)
  · exact ((mild_literal _).orElse (mild_literal _)).bind fun _ => mild_span _
  · exact (mild_literal _).bind fun _ => (mild_upTo _).bind fun _ => mild_literal _

theorem mild_gap1 : gap1.Mild := by
  have hgap : (spaces <|> comment).Mild := (mild_span1 _).orElse mild_comment
  exact (hgap.bind fun _ => hgap.many.bind fun _ => mild_pure _).discard

/-- What holds behind a gap holds in front of it, if white space and comments may be put there. -/
theorem gap0_induction {P : Text → Prop} (h : gap0 s = .ok () m) (hsolid : P m)
    (hspaces : ∀ {u a v}, spaces u = .ok a v → P v → P u)
    (hcomment : ∀ {u a v}, comment u = .ok a v → P v → P u) : P s := by
  obtain ⟨as, hmany⟩ := discard_eq_ok h
  clear h
  fun_induction many (spaces <|> comment) s generalizing as with
  | case1 s a rest hp _ bs last hm ih =>
    cases hmany
    rcases orElse_eq_ok hp with hp | ⟨-, hp⟩
    · exact hspaces hp (ih bs hm)
    · exact hcomment hp (ih bs hm)
  | case2 => cases hmany
  | case3 => cases hmany
  | case4 => cases hmany; exact hsolid
  | case5 => cases hmany; exact hsolid
  | case6 => cases hmany

theorem exists_gap0 (s : Text) : ∃ m, gap0 s = .ok () m := by
  cases h : gap0 s with
  | ok u m => exact ⟨m, rfl⟩
  | mismatch why =>
    rw [gap0, discard_apply] at h
    cases hmany : many (spaces <|> comment) s with
    | ok as rest => rw [hmany] at h; cases h
    | mismatch why' => exact absurd hmany (many_ne_mismatch _ _ _)
    | abort why' => rw [hmany] at h; cases h
  | abort why => exact absurd h (mild_gap0 s why)

/-- A text is solid whatever stands behind it. -/
def Firm (m : Text) : Prop :=
  ∀ z, Solid (m ++ z)

theorem Firm.ne_nil (h : Firm m) : m ≠ [] := by
  rintro rfl
  have hspace := (h [' ']).isSpace_head ' ' rfl
  cases hspace

theorem firm_cons {c : Char} (h : isGapStart c = false) (t : Text) : Firm (c :: t) :=
  fun z => solid_of_head h (t ++ z)

/-- A solid text is firm if nothing but a single dash in front could open a comment. -/
theorem Solid.firm {c : Char} (h : Solid (c :: t ++ y))
    (hc : isGapStart c = false ∨ c = '-' ∧ t ≠ []) : Firm (c :: t) := by
  intro z
  rcases hc with hc | ⟨rfl, hne⟩
  · exact solid_of_head hc (t ++ z)
  · cases t with
    | nil => exact absurd rfl hne
    | cons d t =>
      refine solid_dash fun e he => ?_
      cases he
      rintro rfl
      exact h.not_dashes ⟨t ++ y, rfl⟩

end Lexeme

/-! ### Gaps in front of firm texts -/

namespace Exchange

open Rule Lexeme

variable {x : Exchange} {α β : Type} {p q : Rule α} {L M : Text → Prop} {s r m t : Text}
  {C D : Char → Prop}

theorem keeps_upTo {mark : String} : x.Keeps (upTo mark) fun r => ∃ u, r = mark.toList ++ u := by
  rintro s t r _ ⟨u, rfl⟩ h
  have h : upTo mark (s ++ x.old) = .ok t (mark.toList ++ u ++ x.old) := h
  have hsplit := upTo_eq_ok h
  have hs := Text.append_of_splitBefore? hsplit
  rw [← List.append_assoc] at hs
  obtain rfl := List.append_cancel_right hs
  rw [List.append_assoc, List.append_assoc] at hsplit
  rw [List.append_assoc, List.append_assoc, upTo, Text.splitBefore?_append hsplit]

/-- A closed comment survives the exchange. -/
theorem keeps_blockComment : x.Keeps blockComment L := by
  have hclose : x.Keeps (upTo "*/" >>= fun _ => literal "*/") L := by
    refine keeps_upTo.bind (fun _ => keeps_literal _) fun s a m b r _ hb _ => ?_
    exact ⟨r, (reads_literal hb).1⟩
  exact ((keeps_literal "/*").andThen fun _ => hclose).matched

/-- The mark of a comment that ends with its line survives the exchange. -/
theorem keeps_lineMark : x.Keeps (literal "#" <|> literal "--") L := by
  refine (keeps_literal "#").orElse (keeps_literal "--") fun s a r _ h _ => ?_
  obtain ⟨rfl, -⟩ := reads_literal h
  exact StaysOut.of_refuses fun z => refuses_literal rfl

/-- A comment that ends with its line survives the exchange where the rest of the line does. -/
theorem keeps_lineComment (hspan : x.Keeps (span fun c => c != '\n') L) :
    x.Keeps lineComment L :=
  (keeps_lineMark.andThen fun _ => hspan).matched

theorem keeps_comment_of_span (hspan : x.Keeps (span fun c => c != '\n') L) :
    x.Keeps comment L := by
  refine (keeps_lineComment hspan).orElse keeps_blockComment fun s a r _ h _ => ?_
  -- a closed comment does not start like one that ends with its line
  obtain ⟨a, h⟩ := reads_matched h
  obtain ⟨t, mid, hopen, -⟩ := reads_bind h
  obtain ⟨rfl, -⟩ := reads_literal hopen
  exact StaysOut.of_refuses fun z =>
    ((refuses_literal rfl).orElse (refuses_literal rfl)).bind _ |>.matched

theorem keeps_comment : x.Keeps comment (· ≠ []) :=
  keeps_comment_of_span (keeps_span _)

theorem keeps_gap : x.Keeps (spaces <|> comment) (· ≠ []) := by
  refine (keeps_span1 isSpace).mono (fun _ h => h) |>.orElse keeps_comment fun s a r _ h _ => ?_
  obtain ⟨c, t, rfl, ⟨-, hc⟩, -⟩ := Starts.ne_nil starts_comment h
  exact StaysOut.of_refuses fun z => refuses_span1 hc

theorem Firm.staysOut_gap (h : Firm s) : x.StaysOut (spaces <|> comment) s :=
  StaysOut.of_refuses h

theorem keeps_many_gap : x.Keeps (many (spaces <|> comment)) Firm := by
  refine keeps_gap.many takes_gap (fun m as r _ h hr => ?_) fun s _ hs => Firm.staysOut_gap hs
  rintro rfl
  exact hr.ne_nil (List.suffix_nil.1 h.suffix)

/-- **A gap survives the exchange** in front of a firm text. -/
theorem keeps_gap0 : x.Keeps gap0 Firm :=
  keeps_many_gap.discard

theorem keeps_gap1 : x.Keeps gap1 Firm := by
  refine Keeps.discard (keeps_gap.bind (fun _ => keeps_many_gap.bind (fun _ => keeps_pure _) ?_) ?_)
  · intro s a m b r _ h hr
    obtain ⟨-, rfl⟩ := reads_pure h
    exact hr
  · intro s a m b r _ h hr
    rintro rfl
    exact hr.ne_nil (List.suffix_nil.1 h.suffix)

/-! ### Gaps where no comment is closed -/

/-- **The new text closes no comment** that the old one leaves open. -/
def KeepsComments (x : Exchange) : Prop :=
  ∀ s, s <:+ x.whole → x.StaysOut comment s

theorem KeepsComments.staysOut_gap (hx : x.KeepsComments) (hs : s <:+ x.whole) (hne : s ≠ []) :
    x.StaysOut (spaces <|> comment) s :=
  (staysOut_span1 isSpace hne).orElse (hx s hs)

/-- **A gap survives the exchange** in front of some text. -/
theorem KeepsComments.keeps_many_gap (hx : x.KeepsComments) :
    x.Keeps (many (spaces <|> comment)) (· ≠ []) :=
  keeps_gap.many takes_gap (fun _ _ _ _ h hr => ne_nil_of_reads h hr) fun _ hs hne =>
    hx.staysOut_gap hs hne

theorem KeepsComments.keeps_gap0 (hx : x.KeepsComments) : x.Keeps gap0 (· ≠ []) :=
  hx.keeps_many_gap.discard

theorem KeepsComments.keeps_gap1 (hx : x.KeepsComments) : x.Keeps gap1 (· ≠ []) :=
  Keeps.discard (keeps_gap.bind (fun _ => hx.keeps_many_gap.map _) fun _ _ _ _ _ _ h hr =>
    ne_nil_of_reads h hr)

theorem KeepsComments.staysOut_gap1 (hx : x.KeepsComments) (hs : s <:+ x.whole) (hne : s ≠ []) :
    x.StaysOut gap1 s := by
  refine StaysOut.map (p := many1 (spaces <|> comment)) (StaysOut.bind
    (hx.staysOut_gap hs hne) fun a rest _ hrefuses => ?_) _
  -- once there is a gap, nothing is refused any more
  obtain ⟨why, hwhy⟩ := hrefuses.of_bind_pure
  exact absurd hwhy (many_ne_mismatch _ _ _)

/-- What stays out behind a gap that ends in the front stays out in front of it. -/
theorem KeepsComments.staysOut_gap1_bind {f : Unit → Rule β} (hx : x.KeepsComments)
    (hs : s <:+ x.whole) (hgap : x.Reads gap0 s () m) (hm : m ≠ []) (hf : x.StaysOut (f ()) m) :
    x.StaysOut (gap1 >>= f) s := by
  rcases solid_or_gap1_of_gap0 hgap with ⟨hsolid, hsame⟩ | hold
  · obtain rfl := List.append_cancel_right hsame
    exact fun _ => (hx.staysOut_gap1 hs hm (refuses_gap1 hsolid)).bind f
  · exact hx.keeps_gap1.staysOut_bind hs hm hold hf

end Exchange

namespace Lexeme

open Rule

variable {s t r m y : Text} {C D : Char → Prop}

/-- After a gap the text goes on with another one, whatever stands behind. -/
def GapTo (r m : Text) : Prop :=
  Firm m ∧ ∀ z, gap0 (r ++ z) = .ok () (m ++ z)

theorem GapTo.ne_nil (h : GapTo r m) : r ≠ [] := by
  rintro rfl
  have hnil := h.2 []
  rw [List.append_nil, List.append_nil, gap0_of_solid ⟨⟨[], []⟩, rfl⟩, Outcome.ok.injEq] at hnil
  exact h.1.ne_nil hnil.2.symm

/-- A gap before a firm text is the same whatever stands behind. -/
theorem gapTo_of_gap0 (h : gap0 (r ++ y) = .ok () (m ++ y)) (hm : Firm m) : GapTo r m :=
  ⟨hm, fun z => Exchange.keeps_gap0 (x := ⟨r, y, z⟩) r () m List.suffix_rfl hm h⟩

theorem Firm.gapTo (h : Firm m) : GapTo m m :=
  ⟨h, fun z => gap0_of_solid (h z)⟩

theorem GapTo.unique {m' : Text} (h : GapTo r m) (h' : gap0 (r ++ y) = .ok () (m' ++ y)) :
    m' = m := by
  rw [h.2 y, Outcome.ok.injEq] at h'
  exact (List.append_cancel_right h'.2).symm

/-- After a gap the text goes on with a character of the class, and the first word from there on
ends. -/
def Leads (C : Char → Prop) (r : Text) : Prop :=
  ∃ c t, GapTo r (c :: t) ∧ C c ∧ Breaks (c :: t)

theorem Leads.mono (h : Leads C r) (hC : ∀ c, C c → D c) : Leads D r := by
  obtain ⟨c, t, hgap, hc, hbreaks⟩ := h
  exact ⟨c, t, hgap, hC c hc, hbreaks⟩

theorem Leads.ne_nil (h : Leads C r) : r ≠ [] := by
  obtain ⟨c, t, hgap, -⟩ := h
  exact hgap.ne_nil

/-- What the text leads to stands in front of it unless a gap does. -/
theorem Leads.head (h : Leads C r) : ∀ c ∈ r.head?, C c ∨ isGapStart c = true := by
  obtain ⟨c, t, hgap, hc, -⟩ := h
  intro d hd
  cases r with
  | nil => cases hd
  | cons e u =>
    cases hd
    cases hstart : isGapStart d with
    | true => exact .inr rfl
    | false =>
      have hsame := hgap.unique (y := []) (gap0_of_solid (firm_cons hstart u []))
      rw [List.cons.injEq] at hsame
      exact .inl (hsame.1 ▸ hc)

end Lexeme

namespace Exchange

open Rule Lexeme

variable {x : Exchange} {α β : Type} {p q : Rule α} {L M : Text → Prop} {s r m t : Text}
  {C D : Char → Prop}

/-! ### What follows a gap -/

/-- What follows a gap that may be there survives the exchange together with it, if it starts
firmly. -/
theorem keeps_gap0_bind' {f : Unit → Rule β} [∀ u, Tails (f u)] (hf : x.Keeps (f ()) L)
    (hfirm : ∀ m b r, Solid (m ++ x.old) → x.Reads (f ()) m b r → L r → Firm m) :
    x.Keeps (gap0 >>= f) L :=
  keeps_gap0.bind (fun _ => hf) fun _ _ m b r hgap hb hr => hfirm m b r (solid_of_gap0 hgap) hb hr

theorem keeps_gap1_bind' {f : Unit → Rule β} [∀ u, Tails (f u)] (hf : x.Keeps (f ()) L)
    (hfirm : ∀ m b r, Solid (m ++ x.old) → x.Reads (f ()) m b r → L r → Firm m) :
    x.Keeps (gap1 >>= f) L :=
  keeps_gap1.bind (fun _ => hf) fun _ _ m b r hgap hb hr => hfirm m b r (solid_of_gap1 hgap) hb hr

theorem firm_of_starts {b : β} {q : Rule β} (hstart : q.Starts D)
    (hD : ∀ c, D c → isGapStart c = false) (h : x.Reads q m b r) : Firm m := by
  obtain ⟨c, t, rfl, hc, -⟩ := Starts.ne_nil hstart h
  exact firm_cons (hD c hc) t

/-- **What follows a gap survives the exchange together with it.** -/
theorem keeps_gap0_bind {f : Unit → Rule β} [∀ u, Tails (f u)] (hf : x.Keeps (f ()) L)
    (hstart : (f ()).Starts D) (hD : ∀ c, D c → isGapStart c = false) : x.Keeps (gap0 >>= f) L :=
  keeps_gap0_bind' hf fun _ _ _ _ h _ => firm_of_starts hstart hD h

theorem keeps_gap1_bind {f : Unit → Rule β} [∀ u, Tails (f u)] (hf : x.Keeps (f ()) L)
    (hstart : (f ()).Starts D) (hD : ∀ c, D c → isGapStart c = false) : x.Keeps (gap1 >>= f) L :=
  keeps_gap1_bind' hf fun _ _ _ _ h _ => firm_of_starts hstart hD h

/-! ### What may follow a gap -/

/-- What refuses the text behind a gap refuses the gap together with it. -/
theorem staysOut_gap0_bind {f : Unit → Rule β} (hgap : GapTo s m) (hf : x.StaysOut (f ()) m) :
    x.StaysOut (gap0 >>= f) s := by
  rintro ⟨why, hwhy⟩
  rw [bind_of_ok (hgap.2 x.old)] at hwhy
  obtain ⟨why', hnew⟩ := hf ⟨why, hwhy⟩
  exact ⟨why', by rw [bind_of_ok (hgap.2 x.new), hnew]⟩

theorem staysOut_gap1_bind {f : Unit → Rule β} (hgap : GapTo s m) (hf : x.StaysOut (f ()) m) :
    x.StaysOut (gap1 >>= f) s := by
  rintro ⟨why, hwhy⟩
  rcases solid_or_gap1_of_gap0 (hgap.2 x.old) with ⟨-, hsame⟩ | hold
  · -- no gap is there, neither with the old text behind nor with the new one
    obtain rfl := List.append_cancel_right hsame
    exact (refuses_gap1 (hgap.1 x.new)).bind f
  · rw [bind_of_ok hold] at hwhy
    rcases solid_or_gap1_of_gap0 (hgap.2 x.new) with ⟨hsolid, -⟩ | hnew
    · exact (refuses_gap1 hsolid).bind f
    · obtain ⟨why', h⟩ := hf ⟨why, hwhy⟩
      exact ⟨why', by rw [bind_of_ok hnew, h]⟩

/-- A rule is read only where the text leads to the class. -/
def Meets (x : Exchange) (C : Char → Prop) (p : Rule α) (L : Text → Prop) : Prop :=
  ∀ s a r, x.Reads p s a r → L r → Leads C s

theorem Meets.mono (h : x.Meets C p L) (hC : ∀ c, C c → D c) : x.Meets D p L :=
  fun s a r ha hr => (h s a r ha hr).mono hC

theorem meets_pure {a : α} (hL : ∀ r, L r → Leads C r) : x.Meets C (pure a) L := by
  intro s b r h hr
  obtain ⟨-, rfl⟩ := reads_pure h
  exact hL r hr

/-- What starts with the class and leaves something is read only where the text leads there. -/
theorem meets_of_starts (hstart : p.Starts C) (hC : ∀ c, C c → isGapStart c = false)
    (hL : ∀ r, L r → r ≠ []) : x.Meets C p L := by
  intro s a r h hr
  obtain ⟨c, t, rfl, hc, hbreaks⟩ := Starts.breaks hstart h (hL r hr)
  exact ⟨c, t, (firm_cons (hC c hc) t).gapTo, hc, hbreaks⟩

theorem meets_of_mark (hstart : p.Starts C)
    (hC : ∀ c, C c → isGapStart c = false ∧ isWordChar c = false) : x.Meets C p L := by
  intro s a r h _
  obtain ⟨c, t, rfl, hc, -⟩ := Starts.ne_nil hstart h
  exact ⟨c, t, (firm_cons (hC c hc).1 t).gapTo, hc, breaks_cons (hC c hc).2 t⟩

theorem Leads.of_gap0 (h : x.Reads gap0 s () m) (hm : Leads C m) (hsolid : Firm m) : Leads C s := by
  obtain ⟨c, t, hgap, hc, hbreaks⟩ := hm
  have hsame := hgap.unique (y := []) (gap0_of_solid (hsolid []))
  rw [hsame] at h
  exact ⟨c, t, gapTo_of_gap0 h hgap.1, hc, hbreaks⟩

theorem meets_gap0_bind {f : Unit → Rule β} [∀ u, Tails (f u)] (hf : x.Meets C (f ()) L)
    (hstart : (f ()).Starts D) (hD : ∀ c, D c → isGapStart c = false) :
    x.Meets C (gap0 >>= f) L := by
  intro s b r h hr
  obtain ⟨u, m, hgap, hb, -⟩ := reads_bind h
  exact Leads.of_gap0 hgap (hf m b r hb hr) (firm_of_starts hstart hD hb)

theorem meets_gap1_bind {f : Unit → Rule β} [∀ u, Tails (f u)] (hf : x.Meets C (f ()) L)
    (hstart : (f ()).Starts D) (hD : ∀ c, D c → isGapStart c = false) :
    x.Meets C (gap1 >>= f) L := by
  intro s b r h hr
  obtain ⟨u, m, hgap, hb, -⟩ := reads_bind h
  exact Leads.of_gap0 (gap0_of_gap1 hgap) (hf m b r hb hr) (firm_of_starts hstart hD hb)

theorem meets_optional_bind {f : Option α → Rule β} [Tails p] [∀ o, Tails (f o)]
    (hp : x.Meets C p (· ≠ [])) (hf : ∀ o, x.Meets C (f o) L) : x.Meets C (p.optional >>= f) L := by
  intro s b r h hr
  obtain ⟨o, m, ho, hb, -⟩ := reads_bind h
  have hm := hf o m b r hb hr
  rcases reads_optional ho with ⟨a, -, ha⟩ | ⟨-, -, rfl⟩
  · exact hp s a m ha hm.ne_nil
  · exact hm

theorem meets_many_bind {f : List α → Rule β} [Tails p] [∀ as, Tails (f as)] (htakes : Takes 1 p)
    (hp : x.Meets C p (· ≠ [])) (hf : ∀ as, x.Meets C (f as) L) :
    x.Meets C (p.many >>= f) L := by
  intro s b r h hr
  obtain ⟨as, m, has, hb, -⟩ := reads_bind h
  have hm := hf as m b r hb hr
  rcases reads_many htakes has with ⟨a, m', bs, -, ha, hbs, -⟩ | ⟨-, -, rfl⟩
  · refine hp s a m' ha ?_
    rintro rfl
    exact hm.ne_nil (List.suffix_nil.1 hbs.suffix)
  · exact hm

/-- **What may be left out after a gap survives the exchange**, if what follows it leads to
something that it stays out of. -/
theorem keeps_optional_gap1_bind {f : Option α → Rule β} [Tails q] [∀ o, Tails (f o)]
    (hq : x.Keeps q M) (hstart : q.Starts D) (hD : ∀ c, D c → isGapStart c = false)
    (hf : ∀ o, x.Keeps (f o) L) (hmeets : ∀ o, x.Meets C (f o) L) (hM : ∀ r, Leads C r → M r)
    (hout : ∀ c t, C c → Breaks (c :: t) → x.StaysOut q (c :: t)) :
    x.Keeps (Rule.optional (gap1 *> q) >>= f) L := by
  have hseq : x.Keeps (gap1 *> q) M := keeps_gap1_bind (f := fun _ => q) hq hstart hD
  refine hseq.optional_bind hf (fun a m b r h hr => hM m (hmeets _ m b r h hr)) ?_
  intro s b r _ h hr
  obtain ⟨c, t, hgap, hc, hbreaks⟩ := hmeets none s b r h hr
  exact staysOut_gap1_bind (f := fun _ => q) hgap (hout c t hc hbreaks)

theorem takes_gap1_seq [Tails q] : Takes 1 (gap1 *> q) :=
  Takes.bind (f := fun _ => q) starts_gap1.takes fun _ => takes_zero q

/-- A repetition of what follows gaps survives the exchange. -/
theorem keeps_many_gap1 [Tails q] (hq : x.Keeps q M) (hstart : q.Starts D)
    (hD : ∀ c, D c → isGapStart c = false) (hmid : ∀ m as r, m <:+ x.whole →
      x.Reads (Rule.many (gap1 *> q)) m as r → L r → M m)
    (hout : ∀ s, s <:+ x.whole → L s → ∃ m, GapTo s m ∧ x.StaysOut q m) :
    x.Keeps (Rule.many (gap1 *> q)) L := by
  have hseq : x.Keeps (gap1 *> q) M := keeps_gap1_bind (f := fun _ => q) hq hstart hD
  refine hseq.many takes_gap1_seq hmid fun s hs hr => ?_
  obtain ⟨m, hgap, hm⟩ := hout s hs hr
  exact staysOut_gap1_bind (f := fun _ => q) hgap hm

/-! ### Phrases -/

end Exchange

namespace Lexeme

open Rule

variable {ws : List Text} {w : Text} {phrase : String}

instance tails_wholeWords (ws : List Text) : Tails (wholeWords ws) := by
  induction ws with
  | nil => exact inferInstanceAs (Tails (pure ()))
  | cons w ws ih =>
    cases ws with
    | nil => exact inferInstanceAs (Tails (Functor.discard (wholeWord w)))
    | cons v vs =>
      exact inferInstanceAs (Tails (wholeWord w >>= fun _ => gap1 >>= fun _ => wholeWords (v :: vs)))

instance (word : String) : Tails (keyword word) := by
  unfold keyword
  infer_instance

instance (phrase : String) : Tails (keywords phrase) := by
  unfold keywords
  infer_instance

theorem mild_wholeWords (ws : List Text) : (wholeWords ws).Mild := by
  induction ws with
  | nil => exact mild_pure ()
  | cons w ws ih =>
    cases ws with
    | nil => exact (mild_wholeWord w).discard
    | cons v vs => exact (mild_wholeWord w).bind fun _ => mild_gap1.bind fun _ => ih

theorem mild_keywords (phrase : String) : (keywords phrase).Mild :=
  (mild_wholeWords _).matched

theorem heads_wholeWords (hw : IsWord w) (ws : List Text) : (wholeWords (w :: ws)).Heads [w] := by
  cases ws with
  | nil => exact (heads_wholeWord hw).map _
  | cons v vs =>
    exact Heads.bind (f := fun _ => gap1 >>= fun _ => wholeWords (v :: vs)) (heads_wholeWord hw)

theorem heads_keywords (hphrase : Text.words phrase.toList = w :: ws) (hw : IsWord w) :
    (keywords phrase).Heads [w] := by
  rw [keywords, hphrase]
  exact (heads_wholeWords hw _).matched

end Lexeme

namespace Exchange

open Rule Lexeme

variable {x : Exchange} {L : Text → Prop} {ws : List Text} {w : Text} {phrase : String}

theorem keeps_wholeWords (hws : ∀ w ∈ ws, IsWord w) : x.Keeps (wholeWords ws) (· ≠ []) := by
  induction ws with
  | nil => exact keeps_pure ()
  | cons w ws ih =>
    have hw := hws w List.mem_cons_self
    cases ws with
    | nil => exact (keeps_wholeWord hw).discard
    | cons v vs =>
      have hstart := (heads_wholeWords (hws v (List.mem_cons_of_mem w List.mem_cons_self)) vs).starts
      have htail := ih fun u hu => hws u (List.mem_cons_of_mem w hu)
      refine (keeps_wholeWord hw).bind_starts (f := fun _ => gap1 >>= fun _ => wholeWords (v :: vs))
        (fun _ => ?_) fun _ => starts_gap1.bind
      exact keeps_gap1_bind htail hstart fun _ => isGapStart_of_isWordChar

/-- **A phrase survives the exchange** in front of some text. -/
theorem keeps_keywords (hphrase : Text.words phrase.toList = ws) (hws : ∀ w ∈ ws, IsWord w) :
    x.Keeps (keywords phrase) (· ≠ []) := by
  rw [keywords, hphrase]
  exact (keeps_wholeWords hws).matched

end Exchange

end SchemaDelta
