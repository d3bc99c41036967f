/-
**Things found by their name.**

Tables of a schema and columns of a table are lists of named things in which a name may occur more
than once; the last one of a name is the one that counts.  Names are ordered by their code points.

Main definitions:

* `SchemaDelta.lastPosition?`, `SchemaDelta.lastNamed?` — where the last thing of a name stands, and
  the thing itself;
* `SchemaDelta.insertName`, `SchemaDelta.sortedNames` — the different names of a list in ascending
  order;
* `SchemaDelta.lastByName` — every name with the last thing that bears it.

Main results:

* `SchemaDelta.lastPosition?_lt_length` — positions are in range;
* `SchemaDelta.lastNamed?_isSome_iff` — a name is found exactly when it occurs;
* `SchemaDelta.mem_sortedNames` — sorting keeps the names.
-/

import SchemaDelta.Text.Basic

set_option relaxedAutoImplicit false
set_option autoImplicit false

namespace SchemaDelta

variable {α : Type}

/-! ### The last thing of a name -/

/-- The position of the last thing with the given name. -/
def lastPosition? (nameOf : α → Text) (name : Text) : List α → Option Nat
  | [] => none
  | e :: es =>
    match lastPosition? nameOf name es with
    | some i => some (i + 1)
    | none => if nameOf e = name then some 0 else none

/-- The last thing with the given name. -/
def lastNamed? (nameOf : α → Text) (name : Text) (entries : List α) : Option α :=
  (lastPosition? nameOf name entries).bind fun i => entries[i]?

theorem lastPosition?_lt_length {nameOf : α → Text} {name : Text} {entries : List α} {i : Nat}
    (h : lastPosition? nameOf name entries = some i) : i < entries.length := by
  induction entries generalizing i with
  | nil => cases h
  | cons e es ih =>
    rw [lastPosition?] at h
    cases hes : lastPosition? nameOf name es with
    | some j =>
      rw [hes] at h
      cases h
      have := ih hes
      simpa using this
    | none =>
      rw [hes] at h
      by_cases he : nameOf e = name
      · simp [he] at h
        simp [← h]
      · simp [he] at h

theorem lastPosition?_eq_none_iff {nameOf : α → Text} {name : Text} {entries : List α} :
    lastPosition? nameOf name entries = none ↔ ∀ e ∈ entries, nameOf e ≠ name := by
  induction entries with
  | nil => simp [lastPosition?]
  | cons e es ih =>
    rw [lastPosition?]
    cases hes : lastPosition? nameOf name es with
    | some j =>
      have hne : ¬∀ x ∈ es, nameOf x ≠ name := fun h => by simp [ih.2 h] at hes
      simp only [reduceCtorEq, List.mem_cons, forall_eq_or_imp, false_iff, not_and]
      exact fun _ => hne
    | none =>
      have hall := ih.1 hes
      by_cases he : nameOf e = name
      · simp [he]
      · simp only [he, ↓reduceIte, List.mem_cons, forall_eq_or_imp, true_iff]
        exact ⟨he, hall⟩

theorem lastNamed?_isSome_iff {nameOf : α → Text} {name : Text} {entries : List α} :
    (lastNamed? nameOf name entries).isSome ↔ ∃ e ∈ entries, nameOf e = name := by
  unfold lastNamed?
  cases h : lastPosition? nameOf name entries with
  | none =>
    have hall := lastPosition?_eq_none_iff.1 h
    simp only [Option.bind_none, Option.isSome_none, Bool.false_eq_true, false_iff, not_exists,
      not_and]
    exact hall
  | some i =>
    have hlt := lastPosition?_lt_length h
    have hne : ¬∀ e ∈ entries, nameOf e ≠ name := fun hall => by
      simp [lastPosition?_eq_none_iff.2 hall] at h
    simp only [Option.bind_some, hlt, getElem?_pos, Option.isSome_some, true_iff]
    exact Classical.byContradiction fun hno => hne fun e he hn => hno ⟨e, he, hn⟩

/-! ### The different names in order -/

/-- Put a name into an ascending list of names unless it is there. -/
def insertName (name : Text) : List Text → List Text
  | [] => [name]
  | n :: ns =>
    if name < n then name :: n :: ns
    else if name = n then n :: ns
    else n :: insertName name ns

/-- The different names of a list in ascending order. -/
def sortedNames : List Text → List Text
  | [] => []
  | n :: ns => insertName n (sortedNames ns)

theorem mem_insertName {name x : Text} {ns : List Text} :
    x ∈ insertName name ns ↔ x = name ∨ x ∈ ns := by
  induction ns with
  | nil => simp [insertName]
  | cons n ns ih =>
    rw [insertName]
    by_cases hlt : name < n
    · rw [if_pos hlt]
      simp
    · rw [if_neg hlt]
      by_cases heq : name = n
      · rw [if_pos heq, heq]
        simp
      · rw [if_neg heq, List.mem_cons, ih, List.mem_cons]
        exact or_left_comm

@[simp] theorem mem_sortedNames {x : Text} {ns : List Text} : x ∈ sortedNames ns ↔ x ∈ ns := by
  induction ns with
  | nil => simp [sortedNames]
  | cons n ns ih => simp [sortedNames, mem_insertName, ih]

/-- Every name, in ascending order, with the last thing that bears it. -/
def lastByName (nameOf : α → Text) (entries : List α) : List (Text × α) :=
  (sortedNames (entries.map nameOf)).filterMap fun n =>
    (lastNamed? nameOf n entries).map fun e => (n, e)

end SchemaDelta
