/-
**Line and column tell the offset.**

A place is reported by its line and column, counted in lines and characters, and holds the offset in
bytes.  Where the offset falls between two characters, or lies at or beyond the end of the text, the
two agree: the bytes of the lines in front, each with its line feed, and of the characters in front on
the line itself add up to the offset.  In particular the line exists and is long enough, be it empty
or the last one.

What stands before an offset is a front of the text, and of two fronts one is a front of the other.
The longer one has another line feed, or it has more on the same line; so places come in the
lexicographic order of their lines and columns.

Main definitions:

* `SchemaDelta.Text.lines`, `SchemaDelta.Text.terminated` — the lines of a text, and lines with their
  line feeds;
* `SchemaDelta.Text.IsBoundary` — an offset between two characters, or at or beyond the end;
* `SchemaDelta.Place.Fits` — a line and a column that stand for the offset of the place.

Main results:

* `SchemaDelta.Text.exists_terminated` — a text is its terminated lines and the last one;
* `SchemaDelta.Place.fits_ofByte` — the line and the column of an offset stand for it;
* `SchemaDelta.Place.lex_ofByte` — a later place has a later line, or a later column of its line;
* `SchemaDelta.Source.exists_isBoundary_of_read_eq_error` — a text that is not read is reported at
  such an offset;
* `SchemaDelta.Place.ofByte_identifies` — **line and column identify the offset**.
-/

import Mathlib.Data.List.Induction
import SchemaDelta.Proofs.FailurePlace

set_option relaxedAutoImplicit false
set_option autoImplicit false

namespace SchemaDelta

namespace Text

/-! ### Lines -/

/-- The lines of a text, without the line feeds between them. -/
def lines (t : Text) : List Text :=
  t.splitOn '\n'

/-- Lines with a line feed behind each. -/
def terminated (ls : List Text) : Text :=
  ls.flatMap fun l => l ++ ['\n']

@[simp] theorem terminated_nil : terminated [] = [] := rfl

@[simp] theorem terminated_cons (l : Text) (ls : List Text) :
    terminated (l :: ls) = l ++ '\n' :: terminated ls := by
  simp [terminated]

theorem terminated_append (ls ls' : List Text) :
    terminated (ls ++ ls') = terminated ls ++ terminated ls' :=
  List.flatMap_append

variable {a b : Text} {ls : List Text}

/-- Lines that are written with their line feeds are lines of the text. -/
theorem lines_terminated_append (h : ∀ l ∈ ls, '\n' ∉ l) (t : Text) :
    lines (terminated ls ++ t) = ls ++ lines t := by
  induction ls with
  | nil => rfl
  | cons l ls ih =>
    have hl : '\n' ∉ l := h l List.mem_cons_self
    rw [terminated_cons, List.append_assoc, List.cons_append, lines,
      List.splitOn_append_cons_self_of_not_mem hl]
    exact congrArg (l :: ·) (ih fun l' hl' => h l' (List.mem_cons_of_mem l hl'))

/-- What has no line feed is on the first line. -/
theorem exists_lines_append (h : '\n' ∉ a) (b : Text) :
    ∃ v rest, lines (a ++ b) = (a ++ v) :: rest := by
  by_cases hb : '\n' ∈ b
  · obtain ⟨v, w, rfl, hv⟩ := List.eq_append_cons_of_mem hb
    refine ⟨v, lines w, ?_⟩
    have hav : '\n' ∉ a ++ v := by simp [h, hv]
    rw [← List.append_assoc, lines, List.splitOn_append_cons_self_of_not_mem hav]
    rfl
  · have hab : '\n' ∉ a ++ b := by simp [h, hb]
    exact ⟨b, [], List.splitOn_eq_singleton hab⟩

theorem not_mem_lastLine (t : Text) : '\n' ∉ t.lastLine := by
  rw [lastLine, List.mem_reverse]
  intro h
  simpa using List.mem_takeWhile_imp h

/-- The last line goes on until there is a line feed. -/
theorem lastLine_append (h : '\n' ∉ b) : (a ++ b).lastLine = a.lastLine ++ b := by
  have hall : ∀ c ∈ b.reverse, (c != '\n') = true := by
    intro c hc
    refine bne_iff_ne.2 fun heq => h ?_
    exact heq ▸ List.mem_reverse.1 hc
  rw [lastLine, lastLine, List.reverse_append, List.takeWhile_append_of_pos hall,
    List.reverse_append, List.reverse_reverse]

theorem lastLine_append_lineFeed (t : Text) : (t ++ ['\n']).lastLine = [] := by
  simp [lastLine]

/-- **A text is its terminated lines and the last one**: as many as it has line feeds. -/
theorem exists_terminated (t : Text) :
    ∃ ls, t = terminated ls ++ t.lastLine ∧ ls.length = t.count '\n' ∧ ∀ l ∈ ls, '\n' ∉ l := by
  induction t using List.reverseRecOn with
  | nil => exact ⟨[], rfl, rfl, fun l hl => by cases hl⟩
  | append_singleton t c ih =>
    obtain ⟨ls, ht, hlength, hclean⟩ := ih
    by_cases hc : c = '\n'
    · -- a line feed ends what was the last line so far
      subst hc
      refine ⟨ls ++ [lastLine t], ?_, by simp [hlength], fun l hl => ?_⟩
      · rw [lastLine_append_lineFeed, terminated_append, terminated_cons, terminated_nil,
          List.append_nil, ← List.append_assoc, ← ht]
      · rcases List.mem_append.1 hl with hl | hl
        · exact hclean l hl
        · exact List.mem_singleton.1 hl ▸ not_mem_lastLine t
    · have hmem : '\n' ∉ [c] := fun h => hc (List.mem_singleton.1 h).symm
      refine ⟨ls, ?_, ?_, hclean⟩
      · rw [lastLine_append hmem, ← List.append_assoc, ← ht]
      · rw [List.count_append, List.count_eq_zero_of_not_mem hmem, hlength, Nat.add_zero]

/-! ### Offsets between characters -/

/-- An offset falls between two characters of a text, or lies at or beyond its end. -/
def IsBoundary (t : Text) (n : Nat) : Prop :=
  t.byteLength ≤ n ∨ ∃ a b, t = a ++ b ∧ n = a.byteLength

/-- Such an offset has a front of the text before it, up to the end of the text at most. -/
theorem IsBoundary.exists_front {t : Text} {n : Nat} (h : t.IsBoundary n) :
    ∃ a b, t = a ++ b ∧ min n t.byteLength = a.byteLength := by
  rcases h with hle | ⟨a, b, rfl, rfl⟩
  · exact ⟨t, [], (List.append_nil t).symm, Nat.min_eq_right hle⟩
  · exact ⟨a, b, rfl, Nat.min_eq_left (by simp)⟩

/-- Of two fronts of a text the shorter one is a front of the other. -/
theorem exists_append_of_byteLength_lt {a' b' : Text} (h : a ++ b = a' ++ b')
    (hlt : a.byteLength < a'.byteLength) : ∃ e, a' = a ++ e ∧ e ≠ [] := by
  rcases List.append_eq_append_iff.1 h with ⟨e, rfl, -⟩ | ⟨e, rfl, -⟩
  · refine ⟨e, rfl, fun he => ?_⟩
    subst he
    simp at hlt
  · rw [byteLength_append] at hlt
    omega

end Text

/-! ### Places -/

namespace Place

/-- The line and the column of a place stand for its offset: so many bytes have the lines in front of
the line, with their line feeds, and the characters in front of the column on the line itself. -/
def Fits (place : Place) (source : Text) : Prop :=
  ∃ (front : List Text) (line : Text) (back : List Text) (before : Text),
    source.lines = front ++ line :: back ∧ before <+: line ∧
    place.line = front.length + 1 ∧ place.column = before.length + 1 ∧
    place.position = (Text.terminated front).byteLength + before.byteLength

variable {source a b : Text}

/-- The place at a front of a text is told by the front alone. -/
theorem ofByte_eq {n : Nat} (hsource : source = a ++ b)
    (hn : min n source.byteLength = a.byteLength) :
    ofByte source n = ⟨a.byteLength, a.count '\n' + 1, a.lastLine.length + 1⟩ := by
  rw [ofByte, hn, hsource, Text.upToByte_byteLength]

/-- **The line and the column of an offset stand for it.** -/
theorem fits_ofByte {n : Nat} (h : source.IsBoundary n) : (ofByte source n).Fits source := by
  obtain ⟨a, b, hsource, hn⟩ := h.exists_front
  obtain ⟨front, ha, hlength, hclean⟩ := a.exists_terminated
  obtain ⟨v, back, hline⟩ := Text.exists_lines_append a.not_mem_lastLine b
  rw [ofByte_eq hsource hn]
  refine ⟨front, a.lastLine ++ v, back, a.lastLine, ?_, List.prefix_append _ _,
    by rw [hlength], rfl, ?_⟩
  · rw [← hline, ← Text.lines_terminated_append hclean, ← List.append_assoc, ← ha, hsource]
  · rw [← Text.byteLength_append, ← ha]

/-- **A later place has a later line, or a later column of its line.** -/
theorem lex_ofByte {n m : Nat} (hn : source.IsBoundary n) (hm : source.IsBoundary m)
    (hlt : (ofByte source n).position < (ofByte source m).position) :
    Prod.Lex (· < ·) (· < ·) ((ofByte source n).line, (ofByte source n).column)
      ((ofByte source m).line, (ofByte source m).column) := by
  obtain ⟨a, b, hsource, hna⟩ := hn.exists_front
  obtain ⟨a', b', hsource', hma⟩ := hm.exists_front
  rw [ofByte_eq hsource hna, ofByte_eq hsource' hma] at hlt ⊢
  obtain ⟨e, rfl, hne⟩ := Text.exists_append_of_byteLength_lt (hsource ▸ hsource') hlt
  dsimp only at hlt ⊢
  rw [List.count_append]
  by_cases he : '\n' ∈ e
  · have hpos : 0 < e.count '\n' := List.count_pos_iff.2 he
    exact .left _ _ (by omega)
  · -- all that the longer front has more is on the same line
    have hlength : 0 < e.length := List.length_pos_iff.2 hne
    rw [List.count_eq_zero_of_not_mem he, Nat.add_zero, Text.lastLine_append he, List.length_append]
    exact .right _ (by omega)

/-- Different offsets have different lines and columns. -/
theorem ne_ofByte {n m : Nat} (hn : source.IsBoundary n) (hm : source.IsBoundary m)
    (hne : (ofByte source n).position ≠ (ofByte source m).position) :
    ((ofByte source n).line, (ofByte source n).column) ≠
      ((ofByte source m).line, (ofByte source m).column) := by
  intro heq
  have hirrefl : ∀ x : Nat × Nat, ¬ Prod.Lex (· < ·) (· < ·) x x := fun x h => by
    rcases Prod.lex_def.1 h with h | ⟨-, h⟩ <;> exact Nat.lt_irrefl _ h
  rcases Nat.lt_or_gt_of_ne hne with hlt | hgt
  · exact hirrefl _ (heq ▸ lex_ofByte hn hm hlt)
  · exact hirrefl _ (heq ▸ lex_ofByte hm hn hgt)

end Place

/-- A text that is not read is reported at an offset between two characters or at the end. -/
theorem Source.exists_isBoundary_of_read_eq_error {source : Text} {failure : Failure}
    (h : read source = .error failure) :
    ∃ n context, source.IsBoundary n ∧ failure = .malformed (Place.ofByte source n) context := by
  obtain ⟨why, a, b, hb, ⟨c, hc⟩, hfailure⟩ := exists_failsBehind_of_read h
  have hsource : source = (a ++ c) ++ why.rest := by
    rw [hb.append, ← hc, List.append_assoc]
  refine ⟨source.byteLength - why.rest.byteLength, _, .inr ⟨a ++ c, why.rest, hsource, ?_⟩, hfailure⟩
  rw [hsource, Text.byteLength_append (a ++ c), Nat.add_sub_cancel]

namespace Place

/-- **Line and column identify the offset.**  At an offset between two characters, or at or beyond the
end, the place has that offset, or the size of the text, and a line and a column that stand for it.
Different offsets have different lines and columns, in the same order; and a text that is not read is
always reported at such an offset. -/
theorem ofByte_identifies (source : Text) :
    (∀ n, source.IsBoundary n →
      (ofByte source n).position = min n source.byteLength ∧ (ofByte source n).Fits source) ∧
    (∀ n m, source.IsBoundary n → source.IsBoundary m →
      ((ofByte source n).position ≠ (ofByte source m).position →
        ((ofByte source n).line, (ofByte source n).column) ≠
          ((ofByte source m).line, (ofByte source m).column)) ∧
      ((ofByte source n).position < (ofByte source m).position →
        Prod.Lex (· < ·) (· < ·) ((ofByte source n).line, (ofByte source n).column)
          ((ofByte source m).line, (ofByte source m).column))) ∧
    ∀ failure, Source.read source = .error failure →
      ∃ n context, source.IsBoundary n ∧ failure = .malformed (ofByte source n) context :=
  ⟨fun _ hn => ⟨rfl, fits_ofByte hn⟩, fun _ _ hn hm => ⟨ne_ofByte hn hm, lex_ofByte hn hm⟩,
    fun _ => Source.exists_isBoundary_of_read_eq_error⟩

/-- A letter of two bytes, an empty line and a last one, which are no statement. -/
theorem ofByte_identifies_empty_line :
    let source : Text := "é\n\nb".toList
    ofByte source 2 = ⟨2, 1, 2⟩ ∧ (ofByte source 2).Fits source ∧
      ofByte source 3 = ⟨3, 2, 1⟩ ∧ (ofByte source 3).Fits source ∧
      ofByte source 9 = ⟨5, 3, 2⟩ ∧ (ofByte source 9).Fits source ∧
      Prod.Lex (· < ·) (· < ·) (2, 1) ((ofByte source 9).line, (ofByte source 9).column) ∧
      ∃ failure n context, Source.read source = .error failure ∧ source.IsBoundary n ∧
        failure = .malformed (ofByte source n) context := by
  intro source
  have htwo : source.IsBoundary 2 := .inr ⟨['é'], "\n\nb".toList, by decide, by decide⟩
  have hthree : source.IsBoundary 3 := .inr ⟨['é', '\n'], ['\n', 'b'], by decide, by decide⟩
  have hnine : source.IsBoundary 9 := .inl (by decide)
  obtain ⟨hfits, hordered, hread⟩ := ofByte_identifies source
  have hsecond : ofByte source 3 = ⟨3, 2, 1⟩ := by decide
  have hlex := (hordered 3 9 hthree hnine).2 (by decide)
  rw [hsecond] at hlex
  refine ⟨by decide, (hfits 2 htwo).2, hsecond, (hfits 3 hthree).2, by decide, (hfits 9 hnine).2,
    hlex, ?_⟩
  have hnone : (Source.read source).toOption = none := by decide +kernel
  cases hfailure : Source.read source with
  | ok ss => rw [hfailure] at hnone; cases hnone
  | error failure =>
    obtain ⟨n, context, hn, heq⟩ := hread failure hfailure
    exact ⟨failure, n, context, rfl, hn, heq⟩

end Place

end SchemaDelta
