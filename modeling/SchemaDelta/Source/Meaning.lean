/-
**What statements mean.**

A statement as it is written means a statement of a schema: quotes are taken off names, escapes in
strings are resolved, type names are put into lower case, and what has no bearing on tables is left
out.

Main definitions:

* `SchemaDelta.Source.DefaultValue.meaning`, `SchemaDelta.Source.Qualifier.meaning?`,
  `SchemaDelta.Source.Field.meaning`, `SchemaDelta.Source.Index.meaning` — the parts of a table;
* `SchemaDelta.Source.Table.meaning`, `SchemaDelta.Source.Statement.meaning` — tables and
  statements;
* `SchemaDelta.Source.bitValue`, `SchemaDelta.Source.bits?` — the number that binary digits stand
  for, and that number as a value where it is one.

Main results:

* `SchemaDelta.Source.bitValue_append` — each further digit doubles the number;
* `SchemaDelta.Source.bitValue_lt` — `n` digits stay below the `n`-th power of two;
* `SchemaDelta.Source.bits?_eq_some` — binary digits, up to 64 of them, have a value.
-/

import SchemaDelta.Schema
import SchemaDelta.Source.Grammar

set_option relaxedAutoImplicit false
set_option autoImplicit false

namespace SchemaDelta.Source

/-! ### Default values -/

/-- The number that binary digits stand for, the first one being the highest. -/
def bitValue (digits : Text) : Nat :=
  digits.foldl (fun n c => 2 * n + if c = '1' then 1 else 0) 0

theorem bitValue_append (digits : Text) (c : Char) :
    bitValue (digits ++ [c]) = 2 * bitValue digits + if c = '1' then 1 else 0 := by
  simp [bitValue]

/-- The numbers of `n` digits are below the `n`-th power of two. -/
theorem bitValue_lt (digits : Text) : bitValue digits < Nat.pow 2 digits.length := by
  induction h : digits.length generalizing digits with
  | zero =>
    rw [List.length_eq_zero_iff] at h
    subst h
    decide
  | succ n ih =>
    have hne : digits ≠ [] := by
      rintro rfl
      simp at h
    have hpow : Nat.pow 2 (n + 1) = Nat.pow 2 n * 2 := rfl
    have hfront := ih digits.dropLast (by simp [h])
    rw [← List.dropLast_concat_getLast hne, bitValue_append, hpow]
    split <;> omega

/-- The value of binary digits, which there have to be and whose number has to fit. -/
def bits? (digits : Text) : Option UInt64 :=
  if !digits.isEmpty && digits.all isBit && bitValue digits < UInt64.size then
    some (UInt64.ofNat (bitValue digits))
  else none

theorem bits?_eq_some {digits : Text} (hne : digits ≠ []) (hbits : ∀ c ∈ digits, isBit c = true)
    (hlen : digits.length ≤ 64) : bits? digits = some (UInt64.ofNat (bitValue digits)) := by
  have hsize : Nat.pow 2 digits.length ≤ UInt64.size :=
    Nat.pow_le_pow_right (n := 2) (by decide) hlen
  have hlt : bitValue digits < UInt64.size := Nat.lt_of_lt_of_le (bitValue_lt digits) hsize
  have hall : digits.all isBit = true := List.all_eq_true.2 hbits
  have hempty : digits.isEmpty = false := by
    simpa using hne
  simp only [bits?, hempty, hall, Bool.not_false, Bool.true_and, decide_eq_true hlt, ↓reduceIte]

/-- The value that a written default stands for.  Digits without a value are kept as they are
written. -/
def DefaultValue.meaning : DefaultValue → SchemaDelta.DefaultValue
  | .currentTimestamp => .currentTimestamp
  | .quoted quote body => .text (Text.unescape quote body)
  | .bits digits =>
    match bits? digits with
    | some value => .bits value
    | none => .unclassified ("b'".toList ++ digits ++ "'".toList)
  | .token text => .unclassified text

/-! ### Columns and indices -/

/-- The qualifier that is meant, if it is one that tables are compared by. -/
def Qualifier.meaning? : Qualifier → Option SchemaDelta.Qualifier
  | .notNull => some .notNull
  | .null => some .null
  | .primaryKey => some .primaryKey
  | .autoIncrement => some .autoIncrement
  | .characterSet name => some (.characterSet (Text.unquote name))
  | .collate name => some (.collate (Text.unquote name))
  | .uniqueKey => some .uniqueKey
  | .key => some .key
  | .default value => some (.default value.meaning)
  | .comment _ | .onUpdate _ | .references _ => none

/-- The column that is meant. -/
def Field.meaning (f : Field) : SchemaDelta.Field where
  name := Text.unquote f.name
  type := Text.lowercase f.type
  args := f.args.map Text.trim
  qualifiers := f.qualifiers.filterMap Qualifier.meaning?

/-- The index that is meant.  A storage method after the columns wins over one before them. -/
def Index.meaning (i : Index) : SchemaDelta.Index where
  columns := i.columns.map Text.unquote
  name := i.name.map Text.unquote
  method := i.after.or i.before
  primary := i.kind == .primary
  unique := i.kind == .unique
  fulltext := i.kind == .fulltext
  spatial := i.kind == .spatial

/-! ### Tables and statements -/

/-- The column of a definition. -/
def Definition.field? : Definition → Option SchemaDelta.Field
  | .field f => some f.meaning
  | _ => none

/-- The index of a definition. -/
def Definition.index? : Definition → Option SchemaDelta.Index
  | .index i => some i.meaning
  | _ => none

/-- The table that is meant. -/
def Table.meaning (t : Table) : SchemaDelta.Table where
  name := Text.unquote t.name
  fields := t.definitions.filterMap Definition.field?
  declared := t.definitions.filterMap Definition.index?

/-- The statement that is meant. -/
def Statement.meaning : Statement → SchemaDelta.Statement
  | .use database => .databaseReference (Text.unquote database)
  | .createDatabase name => .databaseReference (Text.unquote name)
  | .createTable t => .createTable t.meaning
  | _ => .ignored

end SchemaDelta.Source
