/-
**What can go wrong.**

Main definitions:

* `SchemaDelta.FileError` — why a file cannot be read;
* `SchemaDelta.SettingsError` — what is wrong with a settings file;
* `SchemaDelta.Failure`, `SchemaDelta.Failure.message` — why a request fails, and its wording.
-/

import SchemaDelta.Text.Place

set_option relaxedAutoImplicit false
set_option autoImplicit false

namespace SchemaDelta

/-- Why a file cannot be read. -/
inductive FileError where
  | notFound
  | notADirectory
  | isADirectory
  /-- Any other reason, in the words of the operating system. -/
  | other (reason : String)
  deriving Repr, DecidableEq

/-- The wording of the reason, with the number that the operating system gives it. -/
def FileError.message : FileError → String
  | .notFound => "No such file or directory (os error 2)"
  | .notADirectory => "Not a directory (os error 20)"
  | .isADirectory => "Is a directory (os error 21)"
  | .other reason => reason

/-- What is wrong with a settings file. -/
inductive SettingsError where
  /-- The file cannot be read. -/
  | unreadable (path : Text) (why : FileError)
  /-- The file holds something that is no setting. -/
  | malformed
  deriving Repr, DecidableEq

/-- The wording of the fault; nothing further is said of a malformed file. -/
def SettingsError.message : SettingsError → Text
  | .unreadable path why => "failed to read '".toList ++ path ++ "': ".toList ++ why.message.toList
  | .malformed => []

/-- Why a request fails. -/
inductive Failure where
  /-- There is no dialect of this name. -/
  | unknownDialect (name : Text)
  /-- A schema text does not fit the grammar. -/
  | malformed (place : Place) (context : Text)
  /-- No schema to start from was given. -/
  | missingInput
  /-- There is something wrong with the settings. -/
  | settings (why : SettingsError)
  /-- A schema file cannot be read. -/
  | unreadable (why : FileError)
  deriving Repr, DecidableEq

/-- A number in decimal digits. -/
def Text.ofNat (n : Nat) : Text :=
  Nat.toDigits 10 n

/-- The wording of a failure. -/
def Failure.message : Failure → Text
  | .unknownDialect name => "Unknown dialect: '".toList ++ name ++ "'. Expected: mysql".toList
  | .malformed place context =>
    "Parse error at line ".toList ++ Text.ofNat place.line ++ ", column ".toList ++
      Text.ofNat place.column ++ ": ".toList ++ context
  | .missingInput =>
    "No before schema given. Pipe it on stdin or pass --before <PATH>".toList
  | .settings why => "Configuration error: ".toList ++ why.message
  | .unreadable why => "IO error: ".toList ++ why.message.toList

end SchemaDelta
