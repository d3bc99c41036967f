/-
**Dialects.**

A dialect is a way to write schemas.  It is found by its name, without regard to the case of ASCII
letters and to white space around it.

Main definitions:

* `SchemaDelta.Dialect` — the dialects;
* `SchemaDelta.Dialect.ofName` — the dialect of a name.
-/

import SchemaDelta.Failure

set_option relaxedAutoImplicit false
set_option autoImplicit false

namespace SchemaDelta

/-- The ways to write a schema. -/
inductive Dialect where
  | mysql
  deriving Repr, DecidableEq

namespace Dialect

/-- Every dialect. -/
def all : List Dialect :=
  [.mysql]

/-- The name of a dialect. -/
def name : Dialect → String
  | .mysql => "mysql"

/-- The dialect that is meant where none is named. -/
def standard : Dialect :=
  .mysql

/-- Whether two texts agree without regard to the case of ASCII letters. -/
def sameIgnoringCase (s t : Text) : Bool :=
  s.map Char.toLower == t.map Char.toLower

/-- The dialect of a name; the failure repeats the name as it was given. -/
def ofName (given : Text) : Except Failure Dialect :=
  match all.find? fun d => sameIgnoringCase d.name.toList given.trim with
  | some d => .ok d
  | none => .error (.unknownDialect given)

end Dialect

end SchemaDelta
