/-
**Lookups by name.**

The last thing of a name is what a lookup gives.  This module says how that lookup follows the list
it goes over, so that tables and columns that are written one after the other into a map by name end
up where the lookup finds them, and that the different names of a list stand in strictly ascending
order.

Main results:

* `SchemaDelta.lastNamed?_cons` — the lookup in a longer list;
* `SchemaDelta.lastNamed?_filter`, `SchemaDelta.lastNamed?_filter_of_nodup` — the lookup in a part
  of a list that the names, or the things themselves, select;
* `SchemaDelta.lastNamed?_map` — the lookup after a change that leaves the names as they are;
* `SchemaDelta.lastNamed?_eq_getLast?` — the lookup in terms of the things of the name alone;
* `SchemaDelta.foldl_update_apply` — **writing into a map leaves the last thing of each name**;
* `SchemaDelta.pairwise_sortedNames` — the different names are in ascending order;
* `SchemaDelta.eq_of_ascending` — **things in ascending order of their names stand in one order
  only**;
* `SchemaDelta.lookup_filterMap_of_nodup` — the lookup in a list with one entry for each name.
-/

import Mathlib.Data.List.Basic
import Mathlib.Logic.Function.Basic
import SchemaDelta.Naming

set_option relaxedAutoImplicit false
set_option autoImplicit false

namespace SchemaDelta

variable {α β : Type} {nameOf : α → Text}

/-! ### The last thing of a name -/

@[simp] theorem lastNamed?_nil (name : Text) : lastNamed? nameOf name [] = none := rfl

/-- What comes later goes before what comes first. -/
theorem lastNamed?_cons (name : Text) (e : α) (es : List α) :
    lastNamed? nameOf name (e :: es) =
      (lastNamed? nameOf name es).or (if nameOf e = name then some e else none) := by
  unfold lastNamed?
  rw [lastPosition?]
  cases h : lastPosition? nameOf name es with
  | some i =>
      have hlt : i < es.length := lastPosition?_lt_length h
      simp [hlt]
  | none =>
      by_cases he : nameOf e = name
      · simp [he]
      · simp [he]

theorem mem_and_name_of_lastNamed? {name : Text} {es : List α} {e : α}
    (h : lastNamed? nameOf name es = some e) : e ∈ es ∧ nameOf e = name := by
  induction es with
  | nil => simp at h
  | cons x xs ih =>
      rw [lastNamed?_cons] at h
      cases hx : lastNamed? nameOf name xs with
      | some y =>
          rw [hx, Option.some_or, Option.some.injEq] at h
          subst h
          exact ⟨List.mem_cons_of_mem x (ih hx).1, (ih hx).2⟩
      | none =>
          rw [hx, Option.none_or] at h
          by_cases hn : nameOf x = name
          · rw [if_pos hn, Option.some.injEq] at h
            subst h
            exact ⟨List.mem_cons_self, hn⟩
          · simp [hn] at h

theorem lastNamed?_eq_none_iff {name : Text} {es : List α} :
    lastNamed? nameOf name es = none ↔ ∀ e ∈ es, nameOf e ≠ name := by
  rw [← Option.not_isSome_iff_eq_none, lastNamed?_isSome_iff]
  constructor
  · intro h e he hn
    exact h ⟨e, he, hn⟩
  · rintro h ⟨e, he, hn⟩
    exact h e he hn

/-- A selection by name keeps all things of a name or none. -/
theorem lastNamed?_filter (p : Text → Bool) (name : Text) (es : List α) :
    lastNamed? nameOf name (es.filter fun e => p (nameOf e)) =
      if p name = true then lastNamed? nameOf name es else none := by
  induction es with
  | nil => simp
  | cons e es ih =>
      rw [List.filter_cons]
      by_cases he : nameOf e = name
      · subst he
        by_cases hp : p (nameOf e) = true
        · rw [if_pos hp, lastNamed?_cons, lastNamed?_cons, ih]
          simp [hp]
        · rw [if_neg hp, ih]
          simp [hp]
      · by_cases hp : p (nameOf e) = true
        · rw [if_pos hp, lastNamed?_cons, lastNamed?_cons, ih]
          simp [he]
        · rw [if_neg hp, lastNamed?_cons, ih]
          simp [he]

/-- Where every name occurs once, a lookup in a selection is a selection of the lookup. -/
theorem lastNamed?_filter_of_nodup {es : List α} (h : (es.map nameOf).Nodup) (p : α → Bool)
    (name : Text) :
    lastNamed? nameOf name (es.filter p) = (lastNamed? nameOf name es).filter p := by
  induction es with
  | nil => simp
  | cons e es ih =>
      rw [List.map_cons, List.nodup_cons] at h
      obtain ⟨hnot, hnd⟩ := h
      have ih := ih hnd
      by_cases he : nameOf e = name
      · -- the name does not occur again, so only the first thing decides
        have hnone : lastNamed? nameOf name es = none := by
          refine lastNamed?_eq_none_iff.2 fun x hx hn => hnot ?_
          exact List.mem_map.2 ⟨x, hx, hn.trans he.symm⟩
        rw [hnone, Option.filter_none] at ih
        by_cases hp : p e = true
        · rw [List.filter_cons_of_pos hp, lastNamed?_cons, lastNamed?_cons, ih, hnone]
          simp [he, Option.filter_some_pos hp]
        · rw [List.filter_cons_of_neg hp, lastNamed?_cons, ih, hnone]
          simp [he, Option.filter_some_eq_none.2 hp]
      · by_cases hp : p e = true
        · rw [List.filter_cons_of_pos hp, lastNamed?_cons, lastNamed?_cons, ih]
          simp [he]
        · rw [List.filter_cons_of_neg hp, lastNamed?_cons, ih]
          simp [he]

/-- Where every name occurs once, each thing is found under its name. -/
theorem lastNamed?_of_mem_of_nodup {es : List α} (h : (es.map nameOf).Nodup) {e : α}
    (he : e ∈ es) : lastNamed? nameOf (nameOf e) es = some e := by
  induction es with
  | nil => cases he
  | cons x xs ih =>
      rw [List.map_cons, List.nodup_cons] at h
      rw [lastNamed?_cons]
      rcases List.mem_cons.1 he with rfl | he
      · have hnone : lastNamed? nameOf (nameOf e) xs = none := by
          refine lastNamed?_eq_none_iff.2 fun y hy hn => h.1 ?_
          exact List.mem_map.2 ⟨y, hy, hn⟩
        rw [hnone, Option.none_or, if_pos rfl]
      · rw [ih h.2 he, Option.some_or]

/-- Where every name occurs once, a name belongs to one thing. -/
theorem eq_of_nameOf_eq {es : List α} (h : (es.map nameOf).Nodup) {e x : α} (he : e ∈ es)
    (hx : x ∈ es) (hname : nameOf e = nameOf x) : e = x := by
  have hlast := lastNamed?_of_mem_of_nodup h he
  rw [hname, lastNamed?_of_mem_of_nodup h hx] at hlast
  exact (Option.some.inj hlast).symm

/-- A change that leaves the names as they are may come before or after the lookup. -/
theorem lastNamed?_map {g : α → α} (hg : ∀ e, nameOf (g e) = nameOf e) (name : Text)
    (es : List α) : lastNamed? nameOf name (es.map g) = (lastNamed? nameOf name es).map g := by
  induction es with
  | nil => rfl
  | cons e es ih =>
      rw [List.map_cons, lastNamed?_cons, lastNamed?_cons, ih, hg]
      cases lastNamed? nameOf name es with
      | some x => rfl
      | none => by_cases he : nameOf e = name <;> simp [he]

/-- A lookup looks at nothing but the things of the name. -/
theorem lastNamed?_eq_getLast? (nameOf : α → Text) (name : Text) (es : List α) :
    lastNamed? nameOf name es = (es.filter fun e => nameOf e = name).getLast? := by
  induction es with
  | nil => rfl
  | cons e es ih =>
      rw [lastNamed?_cons, ih]
      by_cases he : nameOf e = name
      · rw [if_pos he, List.filter_cons_of_pos (by simpa using he), List.getLast?_cons]
        cases (es.filter fun e => nameOf e = name).getLast? <;> rfl
      · rw [if_neg he, List.filter_cons_of_neg (by simpa using he), Option.or_none]

/-- **Writing things into a map by name leaves the last thing of each name.** -/
theorem foldl_update_apply (value : α → β) (es : List α) (m : Text → β) (name : Text) :
    es.foldl (fun m e => Function.update m (nameOf e) (value e)) m name =
      ((lastNamed? nameOf name es).map value).getD (m name) := by
  induction es generalizing m with
  | nil => rfl
  | cons e es ih =>
      rw [List.foldl_cons, ih, lastNamed?_cons]
      cases lastNamed? nameOf name es with
      | some x => rfl
      | none =>
          by_cases he : nameOf e = name
          · subst he
            simp
          · simp [he, Function.update_of_ne (Ne.symm he)]

/-! ### The different names in order -/

theorem pairwise_insertName {name : Text} {ns : List Text} (h : ns.Pairwise (· < ·)) :
    (insertName name ns).Pairwise (· < ·) := by
  induction ns with
  | nil => simp [insertName]
  | cons n ns ih =>
      obtain ⟨hn, hns⟩ := List.pairwise_cons.1 h
      rw [insertName]
      by_cases hlt : name < n
      · rw [if_pos hlt]
        refine List.pairwise_cons.2 ⟨fun x hx => ?_, h⟩
        rcases List.mem_cons.1 hx with rfl | hx
        · exact hlt
        · exact List.lt_trans hlt (hn x hx)
      · rw [if_neg hlt]
        by_cases heq : name = n
        · rw [if_pos heq]
          exact h
        · rw [if_neg heq]
          have hgt : n < name := by
            by_contra hge
            exact heq (List.le_antisymm (List.not_lt.1 hge) (List.not_lt.1 hlt))
          refine List.pairwise_cons.2 ⟨fun x hx => ?_, ih hns⟩
          rcases mem_insertName.1 hx with rfl | hx
          · exact hgt
          · exact hn x hx

/-- **The different names of a list stand in strictly ascending order.** -/
theorem pairwise_sortedNames (ns : List Text) : (sortedNames ns).Pairwise (· < ·) := by
  induction ns with
  | nil => exact List.Pairwise.nil
  | cons n ns ih => exact pairwise_insertName ih

theorem nodup_sortedNames (ns : List Text) : (sortedNames ns).Nodup :=
  (pairwise_sortedNames ns).imp fun {a b} (h : a < b) (heq : a = b) =>
    List.lt_irrefl b (heq ▸ h)

/-- **Things in ascending order of their names stand in one order only.** -/
theorem eq_of_ascending (nameOf : α → Text) {es es' : List α}
    (h : (es.map nameOf).Pairwise (· < ·))
    (h' : (es'.map nameOf).Pairwise (· < ·)) (hmem : ∀ e, e ∈ es ↔ e ∈ es') : es = es' := by
  have hirrefl : ∀ {l : List α}, (l.map nameOf).Pairwise (· < ·) → l.Nodup := fun hl =>
    (List.pairwise_map.1 hl).imp fun {a b} (hlt : nameOf a < nameOf b) (heq : a = b) =>
      List.lt_irrefl (nameOf b) (heq ▸ hlt)
  have hperm : es.Perm es' := (List.perm_ext_iff_of_nodup (hirrefl h) (hirrefl h')).2 hmem
  exact hperm.eq_of_pairwise
    (fun a b _ _ (hab : nameOf a < nameOf b) hba => absurd (List.lt_trans hab hba) (List.lt_irrefl _))
    (List.pairwise_map.1 h) (List.pairwise_map.1 h')

/-- Every name comes with the last thing that bears it. -/
theorem mem_lastByName {es : List α} {name : Text} {e : α} :
    (name, e) ∈ lastByName nameOf es ↔ lastNamed? nameOf name es = some e := by
  rw [lastByName, List.mem_filterMap]
  constructor
  · rintro ⟨n, -, hn⟩
    obtain ⟨e', he', heq⟩ := Option.map_eq_some_iff.1 hn
    cases heq
    exact he'
  · intro he
    obtain ⟨hmem, rfl⟩ := mem_and_name_of_lastNamed? he
    exact ⟨nameOf e, mem_sortedNames.2 (List.mem_map_of_mem hmem), by rw [he]; rfl⟩

theorem map_fst_lastByName (nameOf : α → Text) (es : List α) :
    (lastByName nameOf es).map Prod.fst = sortedNames (es.map nameOf) := by
  have hfound : ∀ n ∈ sortedNames (es.map nameOf),
      Option.map Prod.fst ((lastNamed? nameOf n es).map fun e => (n, e)) = some n := by
    intro n hn
    obtain ⟨e, he, rfl⟩ := List.mem_map.1 (mem_sortedNames.1 hn)
    cases hlast : lastNamed? nameOf (nameOf e) es with
    | none => exact absurd rfl (lastNamed?_eq_none_iff.1 hlast e he)
    | some e' => rfl
  rw [lastByName, List.map_filterMap, List.filterMap_congr hfound, List.filterMap_some]

/-- The last things of all names stand in ascending order of their names. -/
theorem pairwise_lastByName (nameOf : α → Text) (es : List α) :
    (((lastByName nameOf es).map Prod.snd).map nameOf).Pairwise (· < ·) := by
  have hnames : ((lastByName nameOf es).map Prod.snd).map nameOf =
      (lastByName nameOf es).map Prod.fst := by
    rw [List.map_map]
    exact List.map_congr_left fun e he => (mem_and_name_of_lastNamed? (mem_lastByName.1 he)).2
  rw [hnames, map_fst_lastByName]
  exact pairwise_sortedNames _

/-- Where every name occurs once, the last things of all names are the things. -/
theorem mem_lastByName_of_nodup {es : List α} (h : (es.map nameOf).Nodup) {e : α} :
    e ∈ (lastByName nameOf es).map Prod.snd ↔ e ∈ es := by
  rw [List.mem_map]
  constructor
  · rintro ⟨⟨n, e'⟩, hmem, rfl⟩
    exact (mem_and_name_of_lastNamed? (mem_lastByName.1 hmem)).1
  · intro he
    exact ⟨(nameOf e, e), mem_lastByName.2 (lastNamed?_of_mem_of_nodup h he), rfl⟩

/-- A list with one entry for each of different names, looked up under one of them. -/
theorem lookup_filterMap_of_nodup {f : Text → Option β} {ns : List Text} (h : ns.Nodup)
    (name : Text) :
    (ns.filterMap fun n => (f n).map fun b => (n, b)).lookup name =
      if name ∈ ns then f name else none := by
  induction ns with
  | nil => rfl
  | cons n ns ih =>
      obtain ⟨hnot, hnd⟩ := List.nodup_cons.1 h
      have ih := ih hnd
      rw [List.filterMap_cons]
      by_cases hn : name = n
      · subst hn
        cases hf : f name with
        | none =>
            simp only [Option.map_none]
            rw [ih]
            simp [hf]
        | some b => simp
      · cases hf : f n with
        | none =>
            simp only [Option.map_none]
            rw [ih]
            simp [hn]
        | some b =>
            simp only [Option.map_some]
            have hne : (name == n) = false := by simpa using hn
            rw [List.lookup_cons, hne, ih]
            simp [hn]

end SchemaDelta
