/-
**How the pieces of a script are written.**

Dialects differ in the way in which names and strings are quoted and in the statements around a
migration.  A generator collects these decisions; all but two of them have a standard form.

Main definitions:

* `SchemaDelta.Text.binary` — the binary digits of a number;
* `SchemaDelta.Generator` — the decisions;
* `SchemaDelta.Generator.mysql` — those of MySQL, where a backslash in a string is an escape;
* `SchemaDelta.Dialect.generator` — those of a dialect.
-/

import SchemaDelta.Dialect
import SchemaDelta.Lexeme.Quoted

set_option relaxedAutoImplicit false
set_option autoImplicit false

namespace SchemaDelta

/-- The digit of the lowest bit of a number. -/
def bitDigit (n : Nat) : Char :=
  if n % 2 = 1 then '1' else '0'

/-- The binary digits of a number, without leading zeros. -/
def Text.binary (n : Nat) : Text :=
  if n < 2 then [bitDigit n] else binary (n / 2) ++ [bitDigit n]
termination_by n

/-- A text between two of the given quotes, with those inside written twice. -/
def Text.quotedWith (quote : Char) (t : Text) : Text :=
  quote :: doubled quote t ++ [quote]

/-- The decisions about writing a script that dialects differ in. -/
structure Generator where
  /-- A name as it is written. -/
  quoteIdentifier : Text → Text
  /-- The statement that turns the checking of foreign keys on or off. -/
  foreignKeyChecks : Bool → Text
  /-- A string as it is written. -/
  quoteString : Text → Text := Text.quotedWith singleQuote
  /-- A number of bits as it is written. -/
  bitLiteral : UInt64 → Text := fun n => "b'".toList ++ Text.binary n.toNat ++ "'".toList
  /-- The statement that opens the transaction. -/
  beginTransaction : Text := "BEGIN;".toList
  /-- The statement that closes the transaction. -/
  commitTransaction : Text := "COMMIT;".toList

/-- The generator for MySQL. -/
def Generator.mysql : Generator where
  quoteIdentifier := Text.quotedWith backtick
  foreignKeyChecks enabled :=
    "SET foreign_key_checks=".toList ++ [if enabled then '1' else '0', ';']
  quoteString value := Text.quotedWith singleQuote (Text.doubled '\\' value)

/-- The generator of a dialect. -/
def Dialect.generator : Dialect → Generator
  | .mysql => .mysql

end SchemaDelta
