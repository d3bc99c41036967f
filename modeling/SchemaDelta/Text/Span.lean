/-
**Tables of code points.**

A character property is a finite union of runs of consecutive code points, and a simple case map
moves each of finitely many runs by a fixed distance.  This module gives both kinds of table their
meaning; the tables themselves stand beside the properties they define.

Main definitions:

* `SchemaDelta.inSpans` — membership of a code point in a list of spans;
* `SchemaDelta.CaseRun.image?` — where a run of a case map sends a code point;
* `SchemaDelta.caseImage?` — the same for a list of runs.

Main results:

* `SchemaDelta.inSpans_iff` — membership means lying between the ends of one of the spans;
* `SchemaDelta.exists_of_caseImage?` — a code point with an image lies in one of the runs.
-/

set_option relaxedAutoImplicit false
set_option autoImplicit false

namespace SchemaDelta

/-! ### Spans -/

/-- A run of consecutive code points: the first and the last of them. -/
abbrev Span := Nat × Nat

/-- A code point lies in a table when one of its spans holds it. -/
def inSpans (table : List Span) (n : Nat) : Bool :=
  table.any fun s => decide (s.1 ≤ n) && decide (n ≤ s.2)

theorem inSpans_iff {table : List Span} {n : Nat} :
    inSpans table n = true ↔ ∃ s ∈ table, s.1 ≤ n ∧ n ≤ s.2 := by
  simp [inSpans]

/-! ### Runs of a case map -/

/-- The code points `first, first + step, …, last`, each sent to `image` plus its distance from
`first`. -/
structure CaseRun where
  /-- The first code point of the run. -/
  first : Nat
  /-- The last code point of the run. -/
  last : Nat
  /-- The distance between neighbours: 1 for a block, 2 where both cases alternate. -/
  step : Nat
  /-- The counterpart of `first`. -/
  image : Nat
  deriving Repr, DecidableEq

/-- The counterpart of a code point under one run, if the run holds it. -/
def CaseRun.image? (r : CaseRun) (n : Nat) : Option Nat :=
  if r.first ≤ n ∧ n ≤ r.last ∧ (n - r.first) % r.step = 0 then
    some (r.image + (n - r.first))
  else none

/-- The counterpart of a code point under a list of runs: that of the first run that holds it. -/
def caseImage? (runs : List CaseRun) (n : Nat) : Option Nat :=
  runs.findSome? (·.image? n)

theorem CaseRun.image?_eq_some {r : CaseRun} {n m : Nat} (h : r.image? n = some m) :
    r.first ≤ n ∧ n ≤ r.last ∧ m = r.image + (n - r.first) := by
  unfold CaseRun.image? at h
  split at h
  · next hn => exact ⟨hn.1, hn.2.1, by simpa using h.symm⟩
  · cases h

theorem exists_of_caseImage? {runs : List CaseRun} {n m : Nat} (h : caseImage? runs n = some m) :
    ∃ r ∈ runs, r.first ≤ n ∧ n ≤ r.last ∧ m = r.image + (n - r.first) := by
  obtain ⟨r, hr, hm⟩ := List.exists_of_findSome?_eq_some h
  exact ⟨r, hr, CaseRun.image?_eq_some hm⟩

end SchemaDelta
