/-
**Rules that read the start of a text.**

A rule either reads a value from the start of a text and leaves the rest, or it does not fit.  A
rule that does not fit leaves the choice to the alternatives after it, unless it had committed
itself, in which case the whole reading ends.  Either way it tells what was left to read where it
gave up and which constructs it was inside of, so that an error can be located.

Main definitions:

* `SchemaDelta.Construct`, `SchemaDelta.Mismatch` — what is reported about a rule that gave up;
* `SchemaDelta.Outcome` — how a rule ends on a text;
* `SchemaDelta.Rule` — rules, which form a monad: one rule after the other;
* `SchemaDelta.Rule.orElse`, `SchemaDelta.Rule.firstOf` — ordered choice;
* `SchemaDelta.Rule.optional`, `SchemaDelta.Rule.many`, `SchemaDelta.Rule.sepBy1` — repetition;
* `SchemaDelta.Rule.commit`, `SchemaDelta.Rule.within` — commitment, and the name of a construct;
* `SchemaDelta.Rule.matched` — the text that a rule reads, in place of its value;
* `SchemaDelta.Rule.satisfy`, `SchemaDelta.Rule.span1`, `SchemaDelta.Rule.literal`,
  `SchemaDelta.Rule.upTo` — the rules for characters.

Main results:

* `SchemaDelta.Rule.bind_of_ok`, `SchemaDelta.Rule.orElse_of_ok`,
  `SchemaDelta.Rule.orElse_of_mismatch` — one step of a sequence and of a choice;
* `SchemaDelta.Rule.many_of_ok`, `SchemaDelta.Rule.many_of_mismatch` — one step of a repetition;
* `SchemaDelta.Rule.many_ne_mismatch` — a repetition never fails to fit;
* `SchemaDelta.Rule.satisfy_eq_ok_iff`, `SchemaDelta.Rule.char_eq_ok_iff`,
  `SchemaDelta.Rule.span1_eq_ok_iff`, `SchemaDelta.Rule.literal_append` — what the rules for
  characters read.
-/

import SchemaDelta.Text.Basic

set_option relaxedAutoImplicit false
set_option autoImplicit false

namespace SchemaDelta

/-! ### Outcomes -/

/-- The constructs of the schema language that an error message names. -/
inductive Construct where
  /-- What follows the word `USE`. -/
  | useTarget
  /-- What follows the words `CREATE TABLE`. -/
  | createTable
  /-- The parenthesised definitions of a table. -/
  | definitionList
  /-- One column definition. -/
  | fieldDefinition
  /-- What follows the word `DEFAULT` in a column definition. -/
  | defaultValue
  deriving Repr, DecidableEq

/-- The name of a construct in messages. -/
def Construct.name : Construct → String
  | .useTarget => "USE"
  | .createTable => "CREATE TABLE"
  | .definitionList => "create definition list"
  | .fieldDefinition => "field definition"
  | .defaultValue => "default value"

/-- Where a rule gave up. -/
structure Mismatch where
  /-- What was left to read where the innermost rule did not fit. -/
  rest : Text
  /-- The constructs around that place, innermost first. -/
  within : List Construct
  deriving Repr, DecidableEq

/-- How a rule ends on a text. -/
inductive Outcome (α : Type) where
  /-- It read `value` and left `rest`. -/
  | ok (value : α) (rest : Text)
  /-- It does not fit, and an alternative may be tried. -/
  | mismatch (why : Mismatch)
  /-- It does not fit although it had committed itself: no alternative is tried. -/
  | abort (why : Mismatch)
  deriving Repr, DecidableEq

/-- A rule reads the start of a text. -/
def Rule (α : Type) : Type :=
  Text → Outcome α

namespace Rule

/-! ### Sequences -/

/-- Run one rule, then the rule that its value selects, on what was left. -/
def andThen {α β : Type} (p : Rule α) (f : α → Rule β) : Rule β := fun s =>
  match p s with
  | .ok a rest => f a rest
  | .mismatch why => .mismatch why
  | .abort why => .abort why

instance : Monad Rule where
  pure a := fun s => .ok a s
  bind := andThen

@[simp] theorem pure_apply {α : Type} (a : α) (s : Text) : (pure a : Rule α) s = .ok a s := rfl

theorem bind_apply {α β : Type} (p : Rule α) (f : α → Rule β) (s : Text) :
    (p >>= f) s = match p s with
      | .ok a rest => f a rest
      | .mismatch why => .mismatch why
      | .abort why => .abort why := rfl

theorem bind_of_ok {α β : Type} {p : Rule α} {s rest : Text} {a : α} (h : p s = .ok a rest)
    (f : α → Rule β) : (p >>= f) s = f a rest := by
  simp [bind_apply, h]

theorem bind_of_mismatch {α β : Type} {p : Rule α} {s : Text} {why : Mismatch}
    (h : p s = .mismatch why) (f : α → Rule β) : (p >>= f) s = .mismatch why := by
  simp [bind_apply, h]

theorem bind_of_abort {α β : Type} {p : Rule α} {s : Text} {why : Mismatch}
    (h : p s = .abort why) (f : α → Rule β) : (p >>= f) s = .abort why := by
  simp [bind_apply, h]

/-- A sequence reads a value exactly when both of its parts do. -/
theorem bind_eq_ok_iff {α β : Type} {p : Rule α} {f : α → Rule β} {s rest : Text} {b : β} :
    (p >>= f) s = .ok b rest ↔ ∃ a mid, p s = .ok a mid ∧ f a mid = .ok b rest := by
  rw [bind_apply]
  cases p s with
  | ok a mid =>
    constructor
    · exact fun h => ⟨a, mid, rfl, h⟩
    · rintro ⟨a', mid', heq, h⟩
      cases heq
      exact h
  | mismatch why => simp
  | abort why => simp

theorem map_apply {α β : Type} (f : α → β) (p : Rule α) (s : Text) :
    (f <$> p) s = match p s with
      | .ok a rest => .ok (f a) rest
      | .mismatch why => .mismatch why
      | .abort why => .abort why := rfl

instance : LawfulMonad Rule :=
  LawfulMonad.mk' Rule
    (fun p => by
      funext s
      change andThen p (fun a => pure (id a)) s = p s
      unfold andThen
      cases p s <;> rfl)
    (fun _ _ => rfl)
    (fun p f g => by
      funext s
      change andThen (andThen p f) g s = andThen p (fun a => andThen (f a) g) s
      unfold andThen
      cases p s <;> rfl)

/-! ### Choice -/

/-- The rule that fits nothing. -/
def refusal {α : Type} : Rule α := fun s =>
  .mismatch ⟨s, []⟩

/-- Try the second rule where the first one does not fit. -/
def orElse {α : Type} (p : Rule α) (q : Unit → Rule α) : Rule α := fun s =>
  match p s with
  | .ok a rest => .ok a rest
  | .mismatch _ => q () s
  | .abort why => .abort why

instance {α : Type} : OrElse (Rule α) where
  orElse := orElse

theorem orElse_apply {α : Type} (p q : Rule α) (s : Text) :
    (p <|> q) s = match p s with
      | .ok a rest => .ok a rest
      | .mismatch _ => q s
      | .abort why => .abort why := rfl

theorem orElse_of_ok {α : Type} {p : Rule α} {s rest : Text} {a : α} (h : p s = .ok a rest)
    (q : Rule α) : (p <|> q) s = .ok a rest := by
  simp [orElse_apply, h]

theorem orElse_of_mismatch {α : Type} {p : Rule α} {s : Text} {why : Mismatch}
    (h : p s = .mismatch why) (q : Rule α) : (p <|> q) s = q s := by
  simp [orElse_apply, h]

theorem orElse_of_abort {α : Type} {p : Rule α} {s : Text} {why : Mismatch}
    (h : p s = .abort why) (q : Rule α) : (p <|> q) s = .abort why := by
  simp [orElse_apply, h]

/-- The first rule of a list that fits; where none does, the last one tells why. -/
def firstOf {α : Type} : List (Rule α) → Rule α
  | [] => refusal
  | [p] => p
  | p :: q :: ps => p <|> firstOf (q :: ps)

@[simp] theorem firstOf_singleton {α : Type} (p : Rule α) : firstOf [p] = p := rfl

theorem firstOf_cons_cons {α : Type} (p q : Rule α) (ps : List (Rule α)) :
    firstOf (p :: q :: ps) = (p <|> firstOf (q :: ps)) := rfl

/-- Read a value if the rule fits, and nothing otherwise. -/
def optional {α : Type} (p : Rule α) : Rule (Option α) := fun s =>
  match p s with
  | .ok a rest => .ok (some a) rest
  | .mismatch _ => .ok none s
  | .abort why => .abort why

theorem optional_of_ok {α : Type} {p : Rule α} {s rest : Text} {a : α} (h : p s = .ok a rest) :
    optional p s = .ok (some a) rest := by
  simp [optional, h]

theorem optional_of_mismatch {α : Type} {p : Rule α} {s : Text} {why : Mismatch}
    (h : p s = .mismatch why) : optional p s = .ok none s := by
  simp [optional, h]

/-- Read nothing, provided that the given rule does not fit. -/
def absent {α : Type} (p : Rule α) : Rule Unit := fun s =>
  match p s with
  | .ok _ _ => .mismatch ⟨s, []⟩
  | .mismatch _ => .ok () s
  | .abort why => .abort why

theorem absent_of_ok {α : Type} {p : Rule α} {s rest : Text} {a : α} (h : p s = .ok a rest) :
    absent p s = .mismatch ⟨s, []⟩ := by
  simp [absent, h]

theorem absent_of_mismatch {α : Type} {p : Rule α} {s : Text} {why : Mismatch}
    (h : p s = .mismatch why) : absent p s = .ok () s := by
  simp [absent, h]

/-! ### Commitment and names -/

/-- From here on no alternative is tried. -/
def commit {α : Type} (p : Rule α) : Rule α := fun s =>
  match p s with
  | .ok a rest => .ok a rest
  | .mismatch why => .abort why
  | .abort why => .abort why

/-- Report that a rule gave up inside the named construct. -/
def within {α : Type} (name : Construct) (p : Rule α) : Rule α := fun s =>
  match p s with
  | .ok a rest => .ok a rest
  | .mismatch why => .mismatch { why with within := why.within ++ [name] }
  | .abort why => .abort { why with within := why.within ++ [name] }

theorem commit_eq_ok_iff {α : Type} {p : Rule α} {s rest : Text} {a : α} :
    commit p s = .ok a rest ↔ p s = .ok a rest := by
  unfold commit
  cases p s <;> simp

theorem within_eq_ok_iff {α : Type} {name : Construct} {p : Rule α} {s rest : Text} {a : α} :
    within name p s = .ok a rest ↔ p s = .ok a rest := by
  unfold within
  cases p s <;> simp

/-! ### Repetition -/

/-- Read values for as long as the rule fits and reads something. -/
def many {α : Type} (p : Rule α) : Rule (List α) := fun s =>
  match p s with
  | .ok a rest =>
    if _ : rest.length < s.length then
      match many p rest with
      | .ok as last => .ok (a :: as) last
      | .mismatch why => .mismatch why
      | .abort why => .abort why
    else .ok [] s
  | .mismatch _ => .ok [] s
  | .abort why => .abort why
termination_by s => s.length

theorem many_of_mismatch {α : Type} {p : Rule α} {s : Text} {why : Mismatch}
    (h : p s = .mismatch why) : many p s = .ok [] s := by
  rw [many, h]

theorem many_of_abort {α : Type} {p : Rule α} {s : Text} {why : Mismatch}
    (h : p s = .abort why) : many p s = .abort why := by
  rw [many, h]

/-- The repetition goes on after a value that takes some text. -/
theorem many_of_ok {α : Type} {p : Rule α} {s rest : Text} {a : α} (h : p s = .ok a rest)
    (hlt : rest.length < s.length) : many p s = (many p >>= fun as => pure (a :: as)) rest := by
  rw [many, h]
  simp only [hlt, ↓reduceDIte, bind_apply]
  cases many p rest <;> rfl

/-- A repetition reads no value where the rule does not fit, so it never fails to fit itself. -/
theorem many_ne_mismatch {α : Type} (p : Rule α) (s : Text) (why : Mismatch) :
    many p s ≠ .mismatch why := by
  fun_induction many p s generalizing why with
  | case1 s a rest hp hlt as last hm ih => simp
  | case2 s a rest hp hlt why' hm ih => exact (ih why' hm).elim
  | case3 s a rest hp hlt why' hm ih => simp
  | case4 => simp
  | case5 => simp
  | case6 => simp

/-- Read at least one value. -/
def many1 {α : Type} (p : Rule α) : Rule (List α) := do
  let a ← p
  let as ← many p
  return a :: as

/-- Read at least one value, with the given rule between neighbours. -/
def sepBy1 {α β : Type} (sep : Rule β) (p : Rule α) : Rule (List α) := do
  let a ← p
  let as ← many (sep *> p)
  return a :: as

/-! ### The text that was read -/

/-- Give the text that a rule reads in place of its value. -/
def matched {α : Type} (p : Rule α) : Rule Text := fun s =>
  match p s with
  | .ok _ rest => .ok (s.take (s.length - rest.length)) rest
  | .mismatch why => .mismatch why
  | .abort why => .abort why

theorem matched_of_ok {α : Type} {p : Rule α} {front rest : Text} {a : α}
    (h : p (front ++ rest) = .ok a rest) : matched p (front ++ rest) = .ok front rest := by
  simp [matched, h]

theorem discard_apply {α : Type} (p : Rule α) (s : Text) :
    Functor.discard p s = match p s with
      | .ok _ rest => .ok () rest
      | .mismatch why => .mismatch why
      | .abort why => .abort why := rfl

/-! ### Characters -/

/-- Read one character with the given property. -/
def satisfy (f : Char → Bool) : Rule Char
  | [] => .mismatch ⟨[], []⟩
  | c :: t => if f c then .ok c t else .mismatch ⟨c :: t, []⟩

/-- What is read is the first character, and it has the property. -/
theorem satisfy_eq_ok_iff {f : Char → Bool} {s rest : Text} {c : Char} :
    satisfy f s = .ok c rest ↔ s = c :: rest ∧ f c = true := by
  cases s with
  | nil => simp [satisfy]
  | cons d t =>
    by_cases hd : f d = true
    · constructor
      · intro h
        simp only [satisfy, hd, ↓reduceIte, Outcome.ok.injEq] at h
        obtain ⟨rfl, rfl⟩ := h
        exact ⟨rfl, hd⟩
      · rintro ⟨heq, -⟩
        cases heq
        simp [satisfy, hd]
    · constructor
      · intro h
        simp [satisfy, hd] at h
      · rintro ⟨heq, hc⟩
        cases heq
        exact absurd hc hd

/-- Read the given character. -/
def char (c : Char) : Rule Char :=
  satisfy fun x => x == c

theorem char_eq_ok_iff {c d : Char} {s rest : Text} :
    char c s = .ok d rest ↔ s = c :: rest ∧ d = c := by
  rw [char, satisfy_eq_ok_iff]
  constructor
  · rintro ⟨rfl, hd⟩
    obtain rfl : d = c := by simpa using hd
    exact ⟨rfl, rfl⟩
  · rintro ⟨rfl, rfl⟩
    simp

/-- Read one of the given characters. -/
def oneOf (cs : String) : Rule Char :=
  satisfy fun x => cs.toList.contains x

/-- Read characters for as long as they have the given property. -/
def span (f : Char → Bool) : Rule Text := fun s =>
  .ok (s.takeWhile f) (s.dropWhile f)

/-- Read at least one character, for as long as they have the given property. -/
def span1 (f : Char → Bool) : Rule Text
  | [] => .mismatch ⟨[], []⟩
  | c :: t =>
    if f c then .ok (c :: t.takeWhile f) (t.dropWhile f) else .mismatch ⟨c :: t, []⟩

/-- What is read is not empty, has the property throughout, and ends where the property does. -/
theorem span1_eq_ok_iff {f : Char → Bool} {s front rest : Text} :
    span1 f s = .ok front rest ↔
      front ≠ [] ∧ front = s.takeWhile f ∧ rest = s.dropWhile f := by
  cases s with
  | nil =>
    simp only [span1, reduceCtorEq, List.takeWhile_nil, false_iff]
    exact fun h => h.1 h.2.1
  | cons c t =>
    by_cases hc : f c = true
    · simp only [span1, hc, ↓reduceIte, Outcome.ok.injEq, List.takeWhile_cons_of_pos,
        List.dropWhile_cons_of_pos]
      constructor
      · rintro ⟨rfl, rfl⟩
        exact ⟨List.cons_ne_nil c _, rfl, rfl⟩
      · rintro ⟨-, rfl, rfl⟩
        exact ⟨rfl, rfl⟩
    · rw [List.takeWhile_cons_of_neg hc]
      simp only [span1, hc, Bool.false_eq_true, ↓reduceIte, reduceCtorEq, false_iff]
      exact fun h => h.1 h.2.1

/-- Read characters with the given property, `n` of them at most and one at least. -/
def spanUpTo (n : Nat) (f : Char → Bool) : Rule Text := fun s =>
  match (s.take n).takeWhile f with
  | [] => .mismatch ⟨s, []⟩
  | c :: t => .ok (c :: t) (s.drop (t.length + 1))

/-- Read exactly the given characters. -/
def literal (word : String) : Rule Text := fun s =>
  if word.toList.isPrefixOf s then .ok word.toList (s.drop word.toList.length)
  else .mismatch ⟨s, []⟩

/-- A text is read from in front of any other. -/
theorem literal_append (word : String) (t : Text) :
    literal word (word.toList ++ t) = .ok word.toList t := by
  have hfront : word.toList.isPrefixOf (word.toList ++ t) = true := by simp
  rw [literal, if_pos hfront, List.drop_left]

end Rule

/-- What stands before the first occurrence of `mark`, and the text from it on. -/
def Text.splitBefore? (mark : Text) : Text → Option (Text × Text)
  | [] => if mark.isEmpty then some ([], []) else none
  | c :: t =>
    if mark.isPrefixOf (c :: t) then some ([], c :: t)
    else (splitBefore? mark t).map fun parts => (c :: parts.1, parts.2)

/-- Read everything before the first occurrence of `mark`, which has to occur. -/
def Rule.upTo (mark : String) : Rule Text := fun s =>
  match Text.splitBefore? mark.toList s with
  | some (front, rest) => .ok front rest
  | none => .mismatch ⟨s, []⟩

end SchemaDelta
