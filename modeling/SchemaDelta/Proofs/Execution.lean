/-
**What rules do on the bytes of a text.**

A rule is carried out on the bytes of a text, and two things may go wrong there that the rule does
not speak of.  A repetition that goes round without reading anything would go round forever, so it
is given up; and a text that is cut after a number of bytes may be cut inside of a character, which
ends the run.  A keyword is the place to look at: it is compared character by character, but the
number of bytes that are then taken is that of the keyword, however many characters have agreed.

This module carries rules out with both faults made explicit.  What an execution leaves is always
an end of the text, and a rule is faultless if one of its executions never fails and ends as the
rule does on every text.

A rule is known by what it does, and it may be put together in more than one way.  So that a rule
for letters is faultless says little about the cut behind them; where the cut falls is told of the
text and the keyword alone.

Main definitions:

* `SchemaDelta.Fault`, `SchemaDelta.Execution` — what goes wrong, and runs in which it may;
* `SchemaDelta.Execution.cutAt` — a text cut after a number of bytes;
* `SchemaDelta.Execution.busy`, `SchemaDelta.Execution.many` — repetition with its guard;
* `SchemaDelta.Executes` — an execution that follows a rule, combinator by combinator;
* `SchemaDelta.Rule.Faultless` — a rule that is carried out without a fault;
* `SchemaDelta.Rule.Advances` — a rule that does not read a value for nothing;
* `SchemaDelta.Lexeme.CutsClean` — a keyword behind which no character is cut.

Main results:

* `SchemaDelta.Executes.leavesTails` — **whatever an execution leaves is an end of the text**;
* `SchemaDelta.Rule.Faultless.bind`, `SchemaDelta.Rule.Faultless.many` and their companions — what
  is put together from faultless rules is faultless, if what it repeats takes something;
* `SchemaDelta.Lexeme.exists_split_of_agreesWith`, `SchemaDelta.Lexeme.exists_cut_of_agreesWith` —
  **where a text agrees with a keyword, the bytes of the keyword end between two characters**, and
  there the text is cut.
-/

import Mathlib.Tactic.Choose
import SchemaDelta.Proofs.Exchange.Gap

set_option relaxedAutoImplicit false
set_option autoImplicit false

namespace SchemaDelta

/-! ### Faults -/

/-- What may go wrong in a run without being reported by a rule. -/
inductive Fault where
  /-- A repetition went round without reading anything. -/
  | idle
  /-- A text was cut inside of a character, or behind its end. -/
  | cut
  deriving Repr, DecidableEq

/-- What an outcome leaves to read, or left where it gave up. -/
def Outcome.rest {α : Type} : Outcome α → Text
  | .ok _ rest => rest
  | .mismatch why => why.rest
  | .abort why => why.rest

/-- A run on a text, which ends in an outcome unless a fault stops it. -/
def Execution (α : Type) : Type :=
  Text → Except Fault (Outcome α)

namespace Execution

variable {α β : Type}

/-! ### Bytes -/

/-- The first `n` bytes of a text and the others. -/
def cutAt (n : Nat) (s : Text) : Except Fault (Text × Text) :=
  match s.splitAtByte? n with
  | some parts => .ok parts
  | none => .error .cut

/-- Read as many bytes as are measured on the text, and nothing where none are. -/
def scan (size : Text → Option Nat) : Execution Text := fun s =>
  match size s with
  | some n =>
    match cutAt n s with
    | .ok parts => .ok (.ok parts.1 parts.2)
    | .error fault => .error fault
  | none => .ok (.mismatch ⟨s, []⟩)

/-- Read one character with the given property, which takes its bytes. -/
def satisfy (f : Char → Bool) : Execution Char
  | [] => .ok (.mismatch ⟨[], []⟩)
  | c :: t =>
    if f c then
      match cutAt c.utf8Size (c :: t) with
      | .ok parts => .ok (.ok c parts.2)
      | .error fault => .error fault
    else .ok (.mismatch ⟨c :: t, []⟩)

/-- Read a string between two of the given quotes: behind the first one, the text is cut in front
of and behind the second one. -/
def quotedBody (quote : Char) : Execution Text := fun s =>
  match satisfy (fun c => c == quote) s with
  | .ok (.ok _ t) =>
    match Text.splitAtQuote? quote t with
    | some (body, _) =>
      match cutAt body.byteLength t, cutAt (body.byteLength + quote.utf8Size) t with
      | .ok front, .ok behind => .ok (.ok front.1 behind.2)
      | .error fault, _ => .error fault
      | _, .error fault => .error fault
    | none => .ok (.mismatch ⟨s, []⟩)
  | .ok (.mismatch why) => .ok (.mismatch why)
  | .ok (.abort why) => .ok (.abort why)
  | .error fault => .error fault

/-! ### Sequences and choices -/

/-- Read nothing. -/
def pure (a : α) : Execution α := fun s =>
  .ok (.ok a s)

/-- Go on with what the value of a run selects, on what the run has left. -/
def andThen (e : Execution α) (f : α → Execution β) : Execution β := fun s =>
  match e s with
  | .ok (.ok a rest) => f a rest
  | .ok (.mismatch why) => .ok (.mismatch why)
  | .ok (.abort why) => .ok (.abort why)
  | .error fault => .error fault

/-- Try the second run where the first one does not fit. -/
def orElse (e d : Execution α) : Execution α := fun s =>
  match e s with
  | .ok (.mismatch _) => d s
  | result => result

/-- Treat the outcome of a run as a rule treats the outcome of its part. -/
def revise (treat : Rule α → Rule β) (e : Execution α) : Execution β := fun s =>
  match e s with
  | .ok o => .ok (treat (fun _ => o) s)
  | .error fault => .error fault

/-- Give the text that a run reads, which is cut behind the bytes that are not left. -/
def matched (e : Execution α) : Execution Text := fun s =>
  match e s with
  | .ok (.ok _ rest) =>
    match cutAt (s.byteLength - rest.byteLength) s with
    | .ok parts => .ok (.ok parts.1 rest)
    | .error fault => .error fault
  | .ok (.mismatch why) => .ok (.mismatch why)
  | .ok (.abort why) => .ok (.abort why)
  | .error fault => .error fault

/-! ### Repetition -/

/-- A run that is at fault when it reads a value but no byte. -/
def busy (e : Execution α) : Execution α := fun s =>
  match e s with
  | .ok (.ok a rest) =>
    if rest.byteLength < s.byteLength then .ok (.ok a rest) else .error .idle
  | result => result

/-- Go round for as long as the run fits; to fit without reading a byte is a fault. -/
def many (e : Execution α) : Execution (List α) := fun s =>
  match e s with
  | .ok (.ok a rest) =>
    if _ : rest.byteLength < s.byteLength then
      match many e rest with
      | .ok (.ok as last) => .ok (.ok (a :: as) last)
      | .ok (.mismatch why) => .ok (.mismatch why)
      | .ok (.abort why) => .ok (.abort why)
      | .error fault => .error fault
    else .error .idle
  | .ok (.mismatch _) => .ok (.ok [] s)
  | .ok (.abort why) => .ok (.abort why)
  | .error fault => .error fault
termination_by s => s.byteLength

/-- Go round once at least. -/
def many1 (e : Execution α) : Execution (List α) :=
  e.busy.andThen fun a => e.many.andThen fun as => pure (a :: as)

/-- Go round with a separator between neighbours; neither an item nor a separator may be empty. -/
def sepBy1 (sep : Execution β) (e : Execution α) : Execution (List α) :=
  e.busy.andThen fun a => (many (sep.busy.andThen fun _ => e.busy)).andThen fun as => pure (a :: as)

end Execution

/-! ### Executions of rules -/

/-- A run carries out a rule: it is put together from runs as the rule is from rules, with the
guard in every repetition and the cut in every rule that takes text. -/
inductive Executes : {α : Type} → Rule α → Execution α → Prop where
  | pure {α : Type} (a : α) : Executes (Pure.pure a) (.pure a)
  | bind {α β : Type} {p : Rule α} {f : α → Rule β} {e : Execution α} {d : α → Execution β} :
      Executes p e → (∀ a, Executes (f a) (d a)) → Executes (p >>= f) (e.andThen d)
  | orElse {α : Type} {p q : Rule α} {e d : Execution α} :
      Executes p e → Executes q d → Executes (p <|> q) (e.orElse d)
  | optional {α : Type} {p : Rule α} {e : Execution α} :
      Executes p e → Executes p.optional (e.revise Rule.optional)
  | absent {α : Type} {p : Rule α} {e : Execution α} :
      Executes p e → Executes p.absent (e.revise Rule.absent)
  | commit {α : Type} {p : Rule α} {e : Execution α} :
      Executes p e → Executes p.commit (e.revise Rule.commit)
  | within {α : Type} {p : Rule α} {e : Execution α} (name : Construct) :
      Executes p e → Executes (p.within name) (e.revise (Rule.within name))
  | matched {α : Type} {p : Rule α} {e : Execution α} :
      Executes p e → Executes p.matched e.matched
  | many {α : Type} {p : Rule α} {e : Execution α} :
      Executes p e → Executes p.many e.many
  | many1 {α : Type} {p : Rule α} {e : Execution α} :
      Executes p e → Executes p.many1 e.many1
  | sepBy1 {α β : Type} {sep : Rule β} {p : Rule α} {d : Execution β} {e : Execution α} :
      Executes sep d → Executes p e → Executes (Rule.sepBy1 sep p) (d.sepBy1 e)
  | satisfy (f : Char → Bool) : Executes (Rule.satisfy f) (.satisfy f)
  | span (f : Char → Bool) :
      Executes (Rule.span f) (.scan fun s => some (Text.byteLength (s.takeWhile f)))
  | span1 (f : Char → Bool) :
      Executes (Rule.span1 f) (.scan fun s =>
        if s.takeWhile f = [] then none else some (Text.byteLength (s.takeWhile f)))
  | spanUpTo (n : Nat) (f : Char → Bool) :
      Executes (Rule.spanUpTo n f) (.scan fun s =>
        if (s.take n).takeWhile f = [] then none
        else some (Text.byteLength ((s.take n).takeWhile f)))
  | literal (word : String) :
      Executes (Rule.literal word) (.scan fun s =>
        if word.toList.isPrefixOf s then some (Text.byteLength word.toList) else none)
  | upTo (mark : String) :
      Executes (Rule.upTo mark) (.scan fun s =>
        (Text.splitBefore? mark.toList s).map fun parts => parts.1.byteLength)
  | letters (word : Text) :
      Executes (Lexeme.letters word) (.scan fun s =>
        if s.agreesWith word = true ∧ word.byteLength ≤ s.byteLength then some word.byteLength
        else none)
  | quotedBody (quote : Char) : Executes (Lexeme.quotedBody quote) (.quotedBody quote)

namespace Execution

variable {α β : Type} {e : Execution α} {d : Execution β}

/-! ### What executions leave -/

/-- Whatever a run leaves, or left where it gave up, is an end of the text. -/
def LeavesTails (e : Execution α) : Prop :=
  ∀ s o, e s = .ok o → o.rest <:+ s

theorem suffix_of_cutAt {n : Nat} {s : Text} {parts : Text × Text} (h : cutAt n s = .ok parts) :
    parts.2 <:+ s := by
  rw [cutAt] at h
  split at h
  · next hsplit =>
    cases h
    exact ⟨parts.1, Text.append_of_splitAtByte? hsplit⟩
  · cases h

theorem leavesTails_scan (size : Text → Option Nat) : (scan size).LeavesTails := by
  intro s o h
  rw [scan] at h
  split at h
  · split at h
    · next hcut =>
      cases h
      exact suffix_of_cutAt hcut
    · cases h
  · cases h
    exact List.suffix_rfl

theorem leavesTails_satisfy (f : Char → Bool) : (satisfy f).LeavesTails := by
  intro s o h
  cases s with
  | nil =>
    cases h
    exact List.suffix_rfl
  | cons c t =>
    rw [satisfy] at h
    split at h
    · split at h
      · next hcut =>
        cases h
        exact suffix_of_cutAt hcut
      · cases h
    · cases h
      exact List.suffix_rfl

theorem leavesTails_quotedBody (quote : Char) : (quotedBody quote).LeavesTails := by
  intro s o h
  rw [quotedBody] at h
  split at h
  · next c t hfirst =>
    have ht : t <:+ s := leavesTails_satisfy _ s _ hfirst
    split at h
    · split at h
      · next hcut =>
        cases h
        exact (suffix_of_cutAt hcut).trans ht
      · cases h
      · cases h
    · cases h
      exact List.suffix_rfl
  · next why hfirst =>
    cases h
    exact leavesTails_satisfy _ s _ hfirst
  · next why hfirst =>
    cases h
    exact leavesTails_satisfy _ s _ hfirst
  · cases h

theorem leavesTails_pure (a : α) : (pure a).LeavesTails := by
  intro s o h
  cases h
  exact List.suffix_rfl

theorem LeavesTails.andThen {f : α → Execution β} (he : e.LeavesTails)
    (hf : ∀ a, (f a).LeavesTails) : (e.andThen f).LeavesTails := by
  intro s o h
  rw [Execution.andThen] at h
  split at h
  · next a rest hs => exact (hf a rest o h).trans (he s _ hs)
  · next hs => cases h; exact he s _ hs
  · next hs => cases h; exact he s _ hs
  · cases h

theorem LeavesTails.orElse {d : Execution α} (he : e.LeavesTails) (hd : d.LeavesTails) :
    (e.orElse d).LeavesTails := by
  intro s o h
  rw [Execution.orElse] at h
  split at h
  · exact hd s o h
  · exact he s o h

theorem LeavesTails.revise {treat : Rule α → Rule β} (he : e.LeavesTails)
    (htreat : ∀ s o, o.rest <:+ s → (treat (fun _ => o) s).rest <:+ s) :
    (e.revise treat).LeavesTails := by
  intro s o h
  rw [Execution.revise] at h
  split at h
  · next hs =>
    cases h
    exact htreat s _ (he s _ hs)
  · cases h

theorem LeavesTails.matched (he : e.LeavesTails) : e.matched.LeavesTails := by
  intro s o h
  rw [Execution.matched] at h
  split at h
  · next hs =>
    split at h
    · cases h
      exact he s _ hs
    · cases h
  · next hs => cases h; exact he s _ hs
  · next hs => cases h; exact he s _ hs
  · cases h

theorem LeavesTails.busy (he : e.LeavesTails) : e.busy.LeavesTails := by
  intro s o h
  rw [Execution.busy] at h
  split at h
  · next hs =>
    split at h
    · cases h
      exact he s _ hs
    · cases h
  · exact he s o h

theorem LeavesTails.many (he : e.LeavesTails) : e.many.LeavesTails := by
  intro s o h
  -- round by round, each of which starts on an end of the text
  fun_induction Execution.many e s generalizing o with
  | case1 s a rest hs hlt as last hm ih =>
    cases h
    exact (ih _ hm).trans (he s _ hs)
  | case2 s a rest hs hlt why hm ih =>
    cases h
    exact (ih _ hm).trans (he s _ hs)
  | case3 s a rest hs hlt why hm ih =>
    cases h
    exact (ih _ hm).trans (he s _ hs)
  | case4 => cases h
  | case5 => cases h
  | case6 => cases h; exact List.suffix_rfl
  | case7 s why hs => cases h; exact he s _ hs
  | case8 => cases h

theorem LeavesTails.sepBy1 (hd : d.LeavesTails) (he : e.LeavesTails) : (d.sepBy1 e).LeavesTails :=
  he.busy.andThen fun _ => (hd.busy.andThen fun _ => he.busy).many.andThen fun _ =>
    leavesTails_pure _

end Execution

/-- **Whatever an execution of a rule leaves is an end of the text**, and so is what it left where
it gave up. -/
theorem Executes.leavesTails {α : Type} {p : Rule α} {e : Execution α} (h : Executes p e) :
    e.LeavesTails := by
  induction h with
  | pure a => exact Execution.leavesTails_pure a
  | bind _ _ ihp ihf => exact ihp.andThen ihf
  | orElse _ _ ihp ihq => exact ihp.orElse ihq
  | optional _ ih =>
    refine ih.revise fun s o ho => ?_
    cases o with
    | ok a rest => exact ho
    | mismatch why => exact List.suffix_rfl
    | abort why => exact ho
  | absent _ ih =>
    refine ih.revise fun s o ho => ?_
    cases o with
    | ok a rest => exact List.suffix_rfl
    | mismatch why => exact List.suffix_rfl
    | abort why => exact ho
  | commit _ ih =>
    refine ih.revise fun s o ho => ?_
    cases o <;> exact ho
  | within name _ ih =>
    refine ih.revise fun s o ho => ?_
    cases o <;> exact ho
  | matched _ ih => exact ih.matched
  | many _ ih => exact ih.many
  | many1 _ ih => exact ih.busy.andThen fun _ => ih.many.andThen fun _ => Execution.leavesTails_pure _
  | sepBy1 _ _ ihsep ihp => exact ihsep.sepBy1 ihp
  | satisfy f => exact Execution.leavesTails_satisfy f
  | quotedBody quote => exact Execution.leavesTails_quotedBody quote
  | _ => exact Execution.leavesTails_scan _

namespace Text

variable {s t u : Text}

theorem byteLength_le_of_suffix (h : t <:+ s) : t.byteLength ≤ s.byteLength := by
  obtain ⟨u, rfl⟩ := h
  rw [byteLength_append]
  exact Nat.le_add_left _ _

/-- A shorter end of a text has fewer bytes. -/
theorem byteLength_lt_of_suffix (h : t <:+ s) (hlt : t.length < s.length) :
    t.byteLength < s.byteLength := by
  obtain ⟨u, rfl⟩ := h
  have hle := length_le_byteLength u
  rw [List.length_append] at hlt
  rw [byteLength_append]
  omega

end Text

/-- Behind the bytes of what stands in front, a text is cut between two characters. -/
theorem Execution.cutAt_append (front rest : Text) :
    cutAt front.byteLength (front ++ rest) = .ok (front, rest) := by
  rw [cutAt, Text.splitAtByte?_byteLength]

namespace Rule

variable {α β : Type} {p q : Rule α} {e : Execution α}

/-! ### Faultless rules -/

/-- A rule is faultless if it has an execution that ends as the rule does on every text, and
so never in a fault.  There may be other executions of the same rule. -/
def Faultless (p : Rule α) : Prop :=
  ∃ e, Executes p e ∧ ∀ s, e s = .ok (p s)

/-- Whatever a faultless rule leaves is an end of the text. -/
theorem Faultless.suffix (h : p.Faultless) (s : Text) : (p s).rest <:+ s := by
  obtain ⟨e, he, hrun⟩ := h
  exact he.leavesTails s _ (hrun s)

theorem Faultless.suffix_of_ok {a : α} {s rest : Text} (h : p.Faultless) (ha : p s = .ok a rest) :
    rest <:+ s := by
  have hrest := h.suffix s
  rwa [ha] at hrest

/-! ### Sequences and choices -/

theorem faultless_pure (a : α) : (pure a : Rule α).Faultless :=
  ⟨.pure a, .pure a, fun _ => rfl⟩

/-- One run after the other ends as the one rule after the other. -/
theorem andThen_eq {f : α → Rule β} {d : α → Execution β} (hp : ∀ s, e s = .ok (p s))
    (hf : ∀ a s, d a s = .ok (f a s)) (s : Text) : e.andThen d s = .ok ((p >>= f) s) := by
  rw [Execution.andThen, hp s, bind_apply]
  cases p s with
  | ok a rest => exact hf a rest
  | mismatch why => rfl
  | abort why => rfl

theorem Faultless.bind {f : α → Rule β} (hp : p.Faultless) (hf : ∀ a, (f a).Faultless) :
    (p >>= f).Faultless := by
  obtain ⟨e, he, hrun⟩ := hp
  choose d hd hdrun using hf
  exact ⟨e.andThen d, he.bind hd, andThen_eq hrun hdrun⟩

theorem Faultless.map (hp : p.Faultless) (f : α → β) : (f <$> p).Faultless :=
  hp.bind fun a => faultless_pure (f a)

theorem Faultless.discard (hp : p.Faultless) : Faultless (Functor.discard p) :=
  hp.map fun _ => ()

theorem Faultless.orElse (hp : p.Faultless) (hq : q.Faultless) : (p <|> q).Faultless := by
  obtain ⟨e, he, hrun⟩ := hp
  obtain ⟨d, hd, hdrun⟩ := hq
  refine ⟨e.orElse d, he.orElse hd, fun s => ?_⟩
  rw [Execution.orElse, hrun s, orElse_apply]
  cases p s with
  | ok a rest => rfl
  | mismatch why => exact hdrun s
  | abort why => rfl

/-- A choice between faultless rules, one at least, is faultless. -/
theorem faultless_firstOf {ps : List (Rule α)} (hne : ps ≠ []) (h : ∀ p ∈ ps, p.Faultless) :
    (firstOf ps).Faultless := by
  induction ps with
  | nil => exact absurd rfl hne
  | cons p ps ih =>
    cases ps with
    | nil => exact h p List.mem_cons_self
    | cons q ps =>
      rw [firstOf_cons_cons]
      exact (h p List.mem_cons_self).orElse
        (ih (List.cons_ne_nil q ps) fun r hr => h r (List.mem_cons_of_mem p hr))

theorem Faultless.optional (hp : p.Faultless) : p.optional.Faultless := by
  obtain ⟨e, he, hrun⟩ := hp
  refine ⟨_, he.optional, fun s => ?_⟩
  rw [Execution.revise, hrun s]
  rfl

theorem Faultless.absent (hp : p.Faultless) : p.absent.Faultless := by
  obtain ⟨e, he, hrun⟩ := hp
  refine ⟨_, he.absent, fun s => ?_⟩
  rw [Execution.revise, hrun s]
  rfl

theorem Faultless.commit (hp : p.Faultless) : p.commit.Faultless := by
  obtain ⟨e, he, hrun⟩ := hp
  refine ⟨_, he.commit, fun s => ?_⟩
  rw [Execution.revise, hrun s]
  rfl

theorem Faultless.within (hp : p.Faultless) (name : Construct) : (p.within name).Faultless := by
  obtain ⟨e, he, hrun⟩ := hp
  refine ⟨_, he.within name, fun s => ?_⟩
  rw [Execution.revise, hrun s]
  rfl

/-- The text that a rule has read is cut where the rule has stopped. -/
theorem Faultless.matched (hp : p.Faultless) : p.matched.Faultless := by
  have hsuffix := hp.suffix
  obtain ⟨e, he, hrun⟩ := hp
  refine ⟨e.matched, he.matched, fun s => ?_⟩
  rw [Execution.matched, hrun s]
  cases hs : p s with
  | ok a rest =>
    have hrest := hsuffix s
    rw [hs] at hrest
    obtain ⟨front, rfl⟩ : rest <:+ s := hrest
    have hbytes : Text.byteLength (front ++ rest) - rest.byteLength = Text.byteLength front := by
      rw [Text.byteLength_append, Nat.add_sub_cancel]
    rw [matched_of_ok hs]
    simp only [hbytes, Execution.cutAt_append]
  | mismatch why => rw [Rule.matched, hs]
  | abort why => rw [Rule.matched, hs]

/-! ### Repetition -/

/-- Where a rule reads a value, it reads a byte at least. -/
def Advances (p : Rule α) : Prop :=
  ∀ s a rest, p s = .ok a rest → rest.byteLength < s.byteLength

theorem Faultless.advances (hp : p.Faultless) (htakes : Lexeme.Takes 1 p) : p.Advances :=
  fun s a rest ha => Text.byteLength_lt_of_suffix (hp.suffix_of_ok ha) (htakes s a rest ha)

/-- A rule that advances passes the guard of a repetition. -/
theorem busy_eq (hrun : ∀ s, e s = .ok (p s)) (hlt : p.Advances) (s : Text) :
    e.busy s = .ok (p s) := by
  rw [Execution.busy, hrun s]
  cases hs : p s with
  | ok a rest => exact if_pos (hlt s a rest hs)
  | mismatch why => rfl
  | abort why => rfl

/-- **A repetition of a rule that takes something is never idle.** -/
theorem many_eq (hrun : ∀ s, e s = .ok (p s)) (hlt : p.Advances) (htakes : Lexeme.Takes 1 p)
    (s : Text) : e.many s = .ok (p.many s) := by
  -- round by round, as the rule goes
  fun_induction Rule.many p s with
  | case1 s a rest hs hshorter as last hm ih =>
    rw [Execution.many, hrun s, hs]
    simp only [hlt s a rest hs, ↓reduceDIte, ih, hm]
  | case2 s a rest hs hshorter why hm ih => exact absurd hm (many_ne_mismatch p rest why)
  | case3 s a rest hs hshorter why hm ih =>
    rw [Execution.many, hrun s, hs]
    simp only [hlt s a rest hs, ↓reduceDIte, ih, hm]
  | case4 s a rest hs hnot => exact absurd (htakes s a rest hs) hnot
  | case5 s why hs => rw [Execution.many, hrun s, hs]
  | case6 s why hs => rw [Execution.many, hrun s, hs]

theorem Faultless.many (hp : p.Faultless) (htakes : Lexeme.Takes 1 p) : p.many.Faultless := by
  have hlt := hp.advances htakes
  obtain ⟨e, he, hrun⟩ := hp
  exact ⟨e.many, he.many, many_eq hrun hlt htakes⟩

theorem Faultless.many1 (hp : p.Faultless) (htakes : Lexeme.Takes 1 p) : p.many1.Faultless := by
  have hlt := hp.advances htakes
  obtain ⟨e, he, hrun⟩ := hp
  exact ⟨e.many1, he.many1, andThen_eq (busy_eq hrun hlt) fun a =>
    andThen_eq (many_eq hrun hlt htakes) fun as s => rfl⟩

theorem Faultless.sepBy1 {sep : Rule β} (hsep : sep.Faultless) (hp : p.Faultless)
    (hseptakes : Lexeme.Takes 1 sep) (htakes : Lexeme.Takes 1 p) :
    (Rule.sepBy1 sep p).Faultless := by
  have hround : Lexeme.Takes 1 (sep *> p) :=
    (Lexeme.Takes.bind (f := fun _ => p) hseptakes fun _ => htakes).mono (by decide)
  have hsepLt := hsep.advances hseptakes
  have hlt := hp.advances htakes
  have hroundLt := (hsep.bind fun _ => hp).advances hround
  obtain ⟨d, hd, hdrun⟩ := hsep
  obtain ⟨e, he, hrun⟩ := hp
  refine ⟨d.sepBy1 e, hd.sepBy1 he, andThen_eq (busy_eq hrun hlt) fun a =>
    andThen_eq (many_eq (p := sep *> p) (andThen_eq (busy_eq hdrun hsepLt) fun _ =>
      busy_eq hrun hlt) hroundLt hround) fun as s => rfl⟩

/-! ### Characters -/

/-- A rule that measures what it takes is faultless if that is what stands in front of the rest. -/
theorem faultless_of_scan {p : Rule Text} {size : Text → Option Nat} (h : Executes p (.scan size))
    (hsome : ∀ s n, size s = some n →
      ∃ front rest, front ++ rest = s ∧ front.byteLength = n ∧ p s = .ok front rest)
    (hnone : ∀ s, size s = none → p s = .mismatch ⟨s, []⟩) : p.Faultless := by
  refine ⟨.scan size, h, fun s => ?_⟩
  rw [Execution.scan]
  cases hs : size s with
  | none => rw [hnone s hs]
  | some n =>
    obtain ⟨front, rest, rfl, rfl, hread⟩ := hsome s n hs
    simp only [Execution.cutAt_append, hread]

theorem faultless_satisfy (f : Char → Bool) : (satisfy f).Faultless := by
  refine ⟨.satisfy f, .satisfy f, fun s => ?_⟩
  cases s with
  | nil => rfl
  | cons c t =>
    have hcut : Execution.cutAt c.utf8Size (c :: t) = .ok ([c], t) :=
      Execution.cutAt_append [c] t
    rw [Execution.satisfy, Rule.satisfy, hcut]
    split <;> rfl

theorem faultless_char (c : Char) : (char c).Faultless :=
  faultless_satisfy _

theorem faultless_oneOf (cs : String) : (oneOf cs).Faultless :=
  faultless_satisfy _

theorem faultless_span (f : Char → Bool) : (span f).Faultless := by
  refine faultless_of_scan (.span f) (fun s n hn => ?_) fun s hs => by cases hs
  cases hn
  exact ⟨s.takeWhile f, s.dropWhile f, List.takeWhile_append_dropWhile, rfl, rfl⟩

theorem faultless_span1 (f : Char → Bool) : (span1 f).Faultless := by
  refine faultless_of_scan (.span1 f) (fun s n hn => ?_) fun s hs => ?_
  · split at hn
    · cases hn
    · next hne =>
      cases hn
      exact ⟨s.takeWhile f, s.dropWhile f, List.takeWhile_append_dropWhile, rfl,
        span1_eq_ok_iff.2 ⟨hne, rfl, rfl⟩⟩
  · split at hs
    · next hempty =>
      cases s with
      | nil => rfl
      | cons c t =>
        have hc : ¬ f c = true := fun hc => by simp [List.takeWhile_cons_of_pos hc] at hempty
        simp [span1, hc]
    · cases hs

theorem faultless_spanUpTo (n : Nat) (f : Char → Bool) : (spanUpTo n f).Faultless := by
  refine faultless_of_scan (.spanUpTo n f) (fun s m hm => ?_) fun s hs => ?_
  · split at hm
    · cases hm
    · next hne =>
      cases hm
      obtain ⟨c, t, hfront⟩ := List.exists_cons_of_ne_nil hne
      have hprefix : (s.take n).takeWhile f <+: s :=
        (List.takeWhile_prefix f).trans (List.take_prefix n s)
      obtain ⟨rest, hrest⟩ := hprefix
      refine ⟨(s.take n).takeWhile f, rest, hrest, rfl, ?_⟩
      rw [spanUpTo, hfront]
      rw [hfront] at hrest
      rw [← hrest]
      simp
  · split at hs
    · next hempty => rw [spanUpTo, hempty]
    · cases hs

theorem faultless_literal (word : String) : (literal word).Faultless := by
  refine faultless_of_scan (.literal word) (fun s n hn => ?_) fun s hs => ?_
  · split at hn
    · next hfront =>
      cases hn
      obtain ⟨rest, rfl⟩ := List.isPrefixOf_iff_prefix.1 hfront
      exact ⟨word.toList, rest, rfl, rfl, literal_append word rest⟩
    · cases hn
  · split at hs
    · cases hs
    · next hfront => exact if_neg hfront

theorem faultless_upTo (mark : String) : (upTo mark).Faultless := by
  refine faultless_of_scan (.upTo mark) (fun s n hn => ?_) fun s hs => ?_
  · obtain ⟨⟨front, rest⟩, hsplit, rfl⟩ := Option.map_eq_some_iff.1 hn
    refine ⟨front, rest, Text.append_of_splitBefore? hsplit, rfl, ?_⟩
    rw [upTo, hsplit]
  · rw [upTo, Option.map_eq_none_iff.1 hs]

end Rule

namespace Lexeme

open Rule

/-! ### Keywords -/

/-- Behind such a keyword no character is cut.  Its letters are of one byte, and what agrees with
them is too, except for the sign for the kelvin, which agrees with a k and has three bytes: so only
the first letter may be a k, and then there are three letters at least. -/
def CutsClean : Text → Prop
  | [] => True
  | d :: w => (isPlainLetter d = true ∨ d = 'k' ∧ 2 ≤ w.length) ∧ ∀ e ∈ w, isPlainLetter e = true

instance : DecidablePred CutsClean
  | [] => inferInstanceAs (Decidable True)
  | _ :: _ => inferInstanceAs (Decidable (_ ∧ _))

/-- Where a text agrees with plain letters, every number of bytes up to that of the letters ends
between two characters. -/
theorem exists_split_of_isPlainLetter {word s : Text} {n : Nat}
    (hword : ∀ d ∈ word, isPlainLetter d = true) (hagrees : s.agreesWith word = true)
    (hn : n ≤ word.length) (hs : n ≤ s.byteLength) :
    ∃ front rest, front ++ rest = s ∧ front.byteLength = n := by
  induction word generalizing s n with
  | nil =>
    obtain rfl := Nat.le_zero.1 hn
    exact ⟨[], s, rfl, rfl⟩
  | cons d w ih =>
    cases n with
    | zero => exact ⟨[], s, rfl, rfl⟩
    | succ n =>
      cases s with
      | nil => cases hs
      | cons c t =>
        rw [Text.agreesWith, Bool.and_eq_true, beq_iff_eq] at hagrees
        have hsize : c.utf8Size = 1 :=
          utf8Size_ascii (ascii_of_isPlainLetter (hword d List.mem_cons_self) hagrees.1).1
        rw [Text.byteLength_cons, hsize] at hs
        rw [List.length_cons] at hn
        obtain ⟨front, rest, rfl, hfront⟩ := ih (fun e he => hword e (List.mem_cons_of_mem d he))
          hagrees.2 (n := n) (by omega) (by omega)
        refine ⟨c :: front, rest, rfl, ?_⟩
        rw [Text.byteLength_cons, hsize, hfront, Nat.add_comm]

/-- **Where a text agrees with a keyword, the bytes of the keyword end between two characters**, if
the text has as many. -/
theorem exists_split_of_agreesWith {word s : Text} (hword : CutsClean word)
    (hagrees : s.agreesWith word = true) (hs : word.byteLength ≤ s.byteLength) :
    ∃ front rest, front ++ rest = s ∧ front.byteLength = word.byteLength := by
  cases word with
  | nil => exact ⟨[], s, rfl, rfl⟩
  | cons d w =>
    obtain ⟨hd, hw⟩ := hword
    have hdsize : d.utf8Size = 1 := by
      rcases hd with hd | ⟨rfl, -⟩
      · exact utf8Size_of_isPlainLetter hd
      · decide
    have hsize : Text.byteLength (d :: w) = 1 + w.length := by
      rw [Text.byteLength_cons, hdsize,
        Text.byteLength_of_ascii fun e he => (ascii_of_isPlainLetter (hw e he) rfl).1]
    rw [hsize] at hs ⊢
    cases s with
    | nil =>
      rw [Text.byteLength_nil] at hs
      omega
    | cons c t =>
      rw [Text.agreesWith, Bool.and_eq_true, beq_iff_eq] at hagrees
      have hpos := Char.utf8Size_pos c
      -- the first character fits into the keyword, be it the sign for the kelvin
      have hfits : c.utf8Size ≤ 1 + w.length := by
        by_cases hc : c.toNat < 128
        · rw [utf8Size_ascii hc]
          exact Nat.le_add_right 1 _
        · rcases hd with hd | ⟨rfl, hlong⟩
          · exact absurd (ascii_of_isPlainLetter hd hagrees.1).1 hc
          · have hthree : kelvinSign.utf8Size = 3 := by decide
            rw [kelvin_of_lowerChar hc (hagrees.1.trans (by decide)), hthree]
            omega
      rw [Text.byteLength_cons] at hs
      obtain ⟨front, rest, rfl, hfront⟩ := exists_split_of_isPlainLetter hw hagrees.2
        (n := 1 + w.length - c.utf8Size) (by omega) (by omega)
      refine ⟨c :: front, rest, rfl, ?_⟩
      rw [Text.byteLength_cons, hfront]
      omega

/-- There the text is cut, and what stands in front of the cut is read. -/
theorem exists_cut_of_agreesWith {word s : Text} (hword : CutsClean word)
    (hagrees : s.agreesWith word = true) (hs : word.byteLength ≤ s.byteLength) :
    ∃ front rest, s.splitAtByte? word.byteLength = some (front, rest) ∧
      letters word s = .ok front rest := by
  obtain ⟨front, rest, rfl, hfront⟩ := exists_split_of_agreesWith hword hagrees hs
  have hsplit : Text.splitAtByte? word.byteLength (front ++ rest) = some (front, rest) := by
    rw [← hfront, Text.splitAtByte?_byteLength]
  refine ⟨front, rest, hsplit, ?_⟩
  rw [letters, if_pos hagrees, hsplit]

/-- The sign for the kelvin alone has the bytes of the one keyword with a k.  With a k further
behind, a keyword could end inside of it. -/
example : letters "key".toList "\u212A".toList = .ok "\u212A".toList [] ∧
    ¬ CutsClean "ok".toList ∧ Text.agreesWith "o\u212A".toList "ok".toList = true ∧
    Execution.cutAt 2 "o\u212A".toList = .error .cut := by
  decide

theorem faultless_letters {word : Text} (hword : CutsClean word) : (letters word).Faultless := by
  refine faultless_of_scan (.letters word) (fun s n hn => ?_) fun s hs => ?_
  · split at hn
    · next h =>
      cases hn
      obtain ⟨front, rest, hsplit, hread⟩ := exists_cut_of_agreesWith hword h.1 h.2
      exact ⟨front, rest, Text.append_of_splitAtByte? hsplit,
        Text.byteLength_of_splitAtByte? hsplit, hread⟩
    · cases hn
  · split at hs
    · cases hs
    · next h =>
      rw [letters]
      split
      · next hagrees =>
        -- where the text is too short, it has no such cut either
        cases hsplit : s.splitAtByte? word.byteLength with
        | none => rfl
        | some parts =>
          have hbytes := Text.byteLength_of_splitAtByte? hsplit
          have happend := Text.append_of_splitAtByte? hsplit
          refine absurd ⟨hagrees, ?_⟩ h
          rw [← happend, Text.byteLength_append, hbytes]
          exact Nat.le_add_right _ _
      · rfl

/-- Around the closing quote of a string no character is cut. -/
theorem execution_quotedBody_eq (quote : Char) (s : Text) :
    Execution.quotedBody quote s = .ok (quotedBody quote s) := by
  cases s with
  | nil => rfl
  | cons c t =>
    have hcut : Execution.cutAt c.utf8Size (c :: t) = .ok ([c], t) :=
      Execution.cutAt_append [c] t
    rw [Execution.quotedBody, Execution.satisfy, quotedBody]
    by_cases hc : c = quote
    · subst hc
      simp only [beq_self_eq_true, ↓reduceIte, hcut]
      cases hsplit : Text.splitAtQuote? c t with
      | none => rfl
      | some parts =>
        obtain ⟨body, rest⟩ := parts
        have hfront : Execution.cutAt body.byteLength t = .ok (body, c :: rest) := by
          rw [← Text.append_of_splitAtQuote? hsplit, Execution.cutAt_append]
        have hbehind : Execution.cutAt (body.byteLength + c.utf8Size) t = .ok (body ++ [c], rest) := by
          have hbytes : body.byteLength + c.utf8Size = Text.byteLength (body ++ [c]) := by simp
          have happend : t = (body ++ [c]) ++ rest := by
            rw [← Text.append_of_splitAtQuote? hsplit, List.append_assoc, List.singleton_append]
          rw [hbytes, happend, Execution.cutAt_append]
        simp only [hfront, hbehind]
    · simp [hc]

theorem faultless_quotedBody (quote : Char) : (quotedBody quote).Faultless :=
  ⟨.quotedBody quote, .quotedBody quote, execution_quotedBody_eq quote⟩

end Lexeme

end SchemaDelta
