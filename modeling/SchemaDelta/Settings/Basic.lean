/-
**Settings.**

Settings choose the dialects of the two schemas and of the script, the file of the later schema, and
whether columns without a change are passed over.  They come from a settings file; what is given on
the command line takes precedence.

Main definitions:

* `SchemaDelta.Settings` — the settings;
* `SchemaDelta.Settings.ofText` — those of a settings file;
* `SchemaDelta.Overrides`, `SchemaDelta.Settings.override` — what takes precedence over them;
* `SchemaDelta.Settings.beforeDialect`, `SchemaDelta.Settings.afterDialect`,
  `SchemaDelta.Settings.outputDialect`, `SchemaDelta.Settings.options` — what they amount to.
-/

import SchemaDelta.Delta.Between
import SchemaDelta.Dialect
import SchemaDelta.Settings.Toml

set_option relaxedAutoImplicit false
set_option autoImplicit false

namespace SchemaDelta

/-- What can be set. -/
structure Settings where
  /-- The name of the dialect of everything that has no dialect of its own. -/
  dialect : Option Text := none
  /-- The name of the dialect of the earlier schema. -/
  beforeName : Option Text := none
  /-- The name of the dialect of the later schema. -/
  afterName : Option Text := none
  /-- The name of the dialect of the script. -/
  outputName : Option Text := none
  /-- The path of the later schema. -/
  after : Option Text := none
  /-- Whether columns without a change are passed over. -/
  skipUnchanged : Bool := false
  deriving Repr, DecidableEq

namespace Settings

/-- Settings with one of them replaced, if there is one of that name and kind. -/
def set? (s : Settings) (entry : Text × Toml.Value) : Option Settings :=
  match String.ofList entry.1, entry.2 with
  | "dialect", .text value => some { s with dialect := some value }
  | "before_dialect", .text value => some { s with beforeName := some value }
  | "after_dialect", .text value => some { s with afterName := some value }
  | "output_dialect", .text value => some { s with outputName := some value }
  | "after", .text value => some { s with after := some value }
  | "skip_unchanged_fields", .bool value => some { s with skipUnchanged := value }
  | _, _ => none

/-- The settings of a document. -/
def ofEntries? (text : Text) : Option Settings := do
  (← Toml.read text).foldlM set? {}

/-- The names of dialects that are set. -/
def dialectNames (s : Settings) : List Text :=
  [s.dialect, s.beforeName, s.afterName, s.outputName].filterMap id

/-- The settings of a settings file.  Every dialect that it names has to exist. -/
def ofText (text : Text) : Except Failure Settings :=
  match ofEntries? text with
  | none => .error (.settings .malformed)
  | some s => do
    let _ ← s.dialectNames.mapM Dialect.ofName
    return s

/-- The dialect that is named, first by a name of its own and then by the common one. -/
def dialectOf (specific shared : Option Text) : Except Failure Dialect :=
  match specific.or shared with
  | some name => Dialect.ofName name
  | none => .ok .standard

/-- The dialect of the earlier schema. -/
def beforeDialect (s : Settings) : Except Failure Dialect :=
  dialectOf s.beforeName s.dialect

/-- The dialect of the later schema. -/
def afterDialect (s : Settings) : Except Failure Dialect :=
  dialectOf s.afterName s.dialect

/-- The dialect of the script. -/
def outputDialect (s : Settings) : Except Failure Dialect :=
  dialectOf s.outputName s.dialect

/-- How thorough the delta is to be. -/
def options (s : Settings) : Options where
  alterUnchanged := !s.skipUnchanged

end Settings

/-- What takes precedence over settings. -/
structure Overrides where
  /-- The common dialect. -/
  dialect : Option Text := none
  /-- The dialect of the earlier schema. -/
  beforeName : Option Text := none
  /-- The dialect of the later schema. -/
  afterName : Option Text := none
  /-- The dialect of the script. -/
  outputName : Option Text := none
  /-- The path of the later schema. -/
  after : Option Text := none
  /-- Whether columns without a change are passed over whatever the settings say. -/
  skipUnchanged : Bool := false
  deriving Repr, DecidableEq

/-- Settings with what takes precedence over them put in.  Passing over columns can be turned on
but not off. -/
def Settings.override (s : Settings) (o : Overrides) : Settings where
  dialect := o.dialect.or s.dialect
  beforeName := o.beforeName.or s.beforeName
  afterName := o.afterName.or s.afterName
  outputName := o.outputName.or s.outputName
  after := o.after.or s.after
  skipUnchanged := s.skipUnchanged || o.skipUnchanged

end SchemaDelta
