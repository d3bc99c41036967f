/-
**What a program asks of its host.**

The library reads files and standard input only through a `Host`, which may be the operating system
or a value in memory.

Main definitions:

* `SchemaDelta.Host` — the requests;
* `SchemaDelta.Origin` — where the text of a schema comes from;
* `SchemaDelta.Origin.ofBefore`, `SchemaDelta.Settings.afterOrigin` — the origins of the earlier and
  the later schema;
* `SchemaDelta.Origin.read` — the text from an origin;
* `SchemaDelta.Settings.load` — the settings from their file.
-/

import SchemaDelta.Settings.Basic

set_option relaxedAutoImplicit false
set_option autoImplicit false

namespace SchemaDelta

/-- The requests that a program makes of its host. -/
structure Host (m : Type → Type) where
  /-- The contents of the file at a path. -/
  readFile : Text → m (Except FileError Text)
  /-- Whether there is a file, and no directory, at a path. -/
  isFile : Text → m Bool
  /-- All of standard input. -/
  stdin : m Text
  /-- The directory of the user's settings. -/
  settingsDirectory : Option Text

/-! ### Origins of schemas -/

/-- Where the text of a schema comes from. -/
inductive Origin where
  | file (path : Text)
  | stdin
  /-- Nowhere: the schema is that of an empty database. -/
  | emptyDatabase
  deriving Repr, DecidableEq

namespace Origin

/-- How messages refer to an origin. -/
def describe : Origin → Text
  | .file path => '\x27' :: path ++ ['\x27']
  | .stdin => "stdin".toList
  | .emptyDatabase => "an empty database".toList

/-- The schema of an empty database. -/
def emptySchema : Text :=
  "CREATE DATABASE database_name;".toList

/-- The origin of the earlier schema: the given file, or standard input unless that is a terminal. -/
def ofBefore (path : Option Text) (terminal : Bool) : Except Failure Origin :=
  match path with
  | some p => .ok (.file p)
  | none => if terminal then .error .missingInput else .ok .stdin

/-- The text from an origin.  Standard input may not be blank. -/
def read {m : Type → Type} [Monad m] (host : Host m) : Origin → ExceptT Failure m Text
  | .file path => do
    match ← host.readFile path with
    | .ok text => return text
    | .error why => throw (.unreadable why)
  | .stdin => do
    let text ← host.stdin
    if Text.isBlank text then throw .missingInput
    return text
  | .emptyDatabase => return emptySchema

end Origin

namespace Settings

/-- The file of the later schema where no other is named. -/
def standardAfter : Text :=
  "schema.sql".toList

/-- The origin of the later schema: the file that is set, else the given one if it exists, else an
empty database. -/
def afterOriginOr {m : Type → Type} [Monad m] (host : Host m) (s : Settings) (fallback : Text) :
    m Origin := do
  match s.after with
  | some path => return .file path
  | none => return if ← host.isFile fallback then .file fallback else .emptyDatabase

/-- The origin of the later schema. -/
def afterOrigin {m : Type → Type} [Monad m] (host : Host m) (s : Settings) : m Origin :=
  s.afterOriginOr host standardAfter

/-! ### Settings files -/

/-- The places where a settings file is looked for. -/
def searchPaths (directory : Option Text) : List Text :=
  "ddl-diff.toml".toList ::
    (directory.map fun d => d ++ "/ddl-diff/config.toml".toList).toList

/-- The settings of the file at a path. -/
def ofFile {m : Type → Type} [Monad m] (host : Host m) (path : Text) :
    ExceptT Failure m Settings := do
  match ← host.readFile path with
  | .ok text => ofText text
  | .error why => throw (.settings (.unreadable path why))

/-- The settings of the first file among the given ones, and the standard ones if there is none. -/
def ofFirstFile {m : Type → Type} [Monad m] (host : Host m) :
    List Text → ExceptT Failure m Settings
  | [] => return {}
  | path :: paths => do
    if ← host.isFile path then ofFile host path else ofFirstFile host paths

/-- The settings of the file that is named, or else of the first one that is found. -/
def load {m : Type → Type} [Monad m] (host : Host m) (explicit : Option Text) :
    ExceptT Failure m Settings :=
  match explicit with
  | some path => ofFile host path
  | none => ofFirstFile host (searchPaths host.settingsDirectory)

end Settings

end SchemaDelta
