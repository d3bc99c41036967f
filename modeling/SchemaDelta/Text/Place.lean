/-
**Places in a text.**

A place is a byte offset together with its line and column.  Lines end at line feeds, columns count
characters, and both start at 1.

Main definitions:

* `SchemaDelta.Place` — an offset with its line and column;
* `SchemaDelta.Text.upToByte` — what stands before an offset;
* `SchemaDelta.Place.ofByte` — the place at an offset of a text.
-/

import SchemaDelta.Text.Basic

set_option relaxedAutoImplicit false
set_option autoImplicit false

namespace SchemaDelta

/-- A byte offset, and the line and the column it falls on. -/
structure Place where
  /-- The offset in bytes. -/
  position : Nat
  /-- The line, from 1. -/
  line : Nat
  /-- The column in characters, from 1. -/
  column : Nat
  deriving Repr, DecidableEq

namespace Text

/-- What stands before a byte offset; the whole text where the offset falls inside a character or
beyond the end. -/
def upToByte (t : Text) (n : Nat) : Text :=
  match splitAtByte? n t with
  | some parts => parts.1
  | none => t

theorem upToByte_byteLength (s t : Text) : upToByte (s ++ t) (byteLength s) = s := by
  simp [upToByte, splitAtByte?_byteLength]

/-- The characters after the last line feed. -/
def lastLine (t : Text) : Text :=
  (t.reverse.takeWhile fun c => c != '\n').reverse

end Text

/-- The place at a byte offset of a text, or at its end where the offset lies beyond. -/
def Place.ofByte (source : Text) (n : Nat) : Place :=
  let position := min n source.byteLength
  let consumed := source.upToByte position
  { position := position
    line := consumed.count '\n' + 1
    column := consumed.lastLine.length + 1 }

end SchemaDelta
