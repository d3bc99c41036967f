/-
**Reading a schema.**

A schema text is read statement by statement, with white space of any kind between them.  Either
all of it is read or none: where a statement does not fit, the failure tells the place, the
constructs around it and what stands there.

Main definitions:

* `SchemaDelta.Source.readStatements` — the statements of a text, or the rule's mismatch;
* `SchemaDelta.Source.failureOf` — the failure that a mismatch is reported as;
* `SchemaDelta.Source.read` — the statements of a text as they are written;
* `SchemaDelta.Schema.read` — the schema that a text means.
-/

import SchemaDelta.Dialect
import SchemaDelta.Source.Meaning

set_option relaxedAutoImplicit false
set_option autoImplicit false

namespace SchemaDelta

namespace Source

/-- The statements of a text, between which white space may stand. -/
def readStatements (text : Text) : Except Mismatch (List Statement) :=
  match text.trimStart with
  | [] => .ok []
  | c :: t =>
    match statement (c :: t) with
    | .ok s rest =>
      if _ : rest.length < text.length then
        (readStatements rest).map (s :: ·)
      else .error ⟨rest, []⟩
    | .mismatch why => .error why
    | .abort why => .error why
termination_by text.length

/-- How many characters a message repeats of the text that does not fit. -/
def excerptLength : Nat :=
  40

/-- What a mismatch is called: the constructs around it, innermost first. -/
def faultName (within : List Construct) : Text :=
  if within.isEmpty then "unrecognized statement".toList
  else "invalid ".toList ++ Text.joinWith " in ".toList (within.map fun c => c.name.toList)

/-- The failure that a mismatch is reported as.  The place is where the innermost rule gave up, and
the message repeats the line from there on, up to a limit. -/
def failureOf (text : Text) (why : Mismatch) : Failure :=
  let excerpt := (Text.firstLine why.rest).take excerptLength
  let context :=
    if excerpt.isEmpty then faultName why.within ++ " at end of input".toList
    else faultName why.within ++ " near '".toList ++ excerpt ++ "'".toList
  .malformed (Place.ofByte text (text.byteLength - why.rest.byteLength)) context

/-- The statements of a text as they are written. -/
def read (text : Text) : Except Failure (List Statement) :=
  match readStatements text with
  | .ok statements => .ok statements
  | .error why => .error (failureOf text why)

end Source

/-- The schema that a text in the given dialect means. -/
def Schema.read (text : Text) : Dialect → Except Failure Schema
  | .mysql => (Source.read text).map fun statements => ⟨statements.map Source.Statement.meaning⟩

/-- The schema that a text means in the dialect of the given name. -/
def Schema.readNamed (text dialect : Text) : Except Failure Schema := do
  Schema.read text (← Dialect.ofName dialect)

end SchemaDelta
