/-
**Running the program.**

The program reads its settings and both schemas, and prints the script or the delta that leads from
the one to the other.  What goes wrong is printed with what the program was about to do.

Main definitions:

* `SchemaDelta.Complaint`, `SchemaDelta.Complaint.message` — a failure and what it prevented;
* `SchemaDelta.Ending`, `SchemaDelta.Ending.exitCode` — how a run ends;
* `SchemaDelta.printDelta` — the work of the command;
* `SchemaDelta.run` — the program on a command line.
-/

import SchemaDelta.Command.Arguments
import SchemaDelta.Delta.Json
import SchemaDelta.Host.Basic
import SchemaDelta.Script.Writing
import SchemaDelta.Source.Reading

set_option relaxedAutoImplicit false
set_option autoImplicit false

namespace SchemaDelta

/-! ### Complaints -/

/-- A failure and what it prevented. -/
structure Complaint where
  /-- What the program was about to do, if that is said. -/
  context : Option Text
  /-- Why it failed. -/
  cause : Failure
  deriving Repr, DecidableEq

/-- The causes of a failure, from the outermost to the innermost, as they are worded. -/
def Failure.chain (f : Failure) : List Text :=
  match f with
  | .unreadable why => [f.message, why.message.toList]
  | _ => [f.message]

/-- Whether a failure calls for a look at the help text. -/
def Failure.isUsage : Failure → Bool
  | .unknownDialect _ | .missingInput => true
  | _ => false

/-- What is printed about a failure. -/
def Complaint.message (c : Complaint) : Text :=
  "Error: ".toList ++ Text.joinWith ": ".toList (c.context.toList ++ c.cause.chain) ++ ['\n'] ++
    if c.cause.isUsage then "\nTry: ddl-diff diff --help\n".toList else []

/-! ### Endings -/

/-- How a run of the program ends. -/
inductive Ending where
  /-- It printed a result. -/
  | printed (text : Text)
  /-- It could not give a result. -/
  | complained (complaint : Complaint)
  /-- The command line is not one of the program's. -/
  | usage
  deriving Repr, DecidableEq

namespace Ending

/-- The exit code of a run. -/
def exitCode : Ending → Nat
  | .printed _ => 0
  | .complained _ => 1
  | .usage => 2

/-- What a run prints on standard output. -/
def stdout : Ending → Text
  | .printed text => text
  | _ => []

/-- What a run prints on standard error. -/
def stderr : Ending → Text
  | .printed _ => []
  | .complained c => c.message
  | .usage => "Try: ddl-diff --help\n".toList

end Ending

/-! ### The command -/

/-- A request whose failure is reported with the given context. -/
def inContext {m : Type → Type} [Monad m] {α : Type} (context : Option Text)
    (p : ExceptT Failure m α) : ExceptT Complaint m α :=
  p.adapt fun cause => ⟨context, cause⟩

/-- A result whose failure is reported with the given context. -/
def orComplain {m : Type → Type} [Monad m] {α : Type} (context : Option Text)
    (r : Except Failure α) : ExceptT Complaint m α :=
  inContext context (ExceptT.mk (pure r))

/-- What a delta is printed as. -/
def Format.print (format : Format) (dialect : Dialect) (d : Delta) : Text :=
  match format with
  | .sql => dialect.generator.script d
  | .json => d.toJson.pretty ++ ['\n']

/-- Read the settings and both schemas, and give what is printed of the delta between them. -/
def printDelta {m : Type → Type} [Monad m] (host : Host m) (arguments : Arguments)
    (terminal : Bool) : ExceptT Complaint m Text := do
  let found ← inContext none (Settings.load host arguments.config)
  let settings := found.override arguments.overrides
  let beforeDialect ← orComplain none settings.beforeDialect
  let afterDialect ← orComplain none settings.afterDialect
  let outputDialect ← orComplain none settings.outputDialect
  let beforeOrigin ← orComplain none (Origin.ofBefore arguments.before terminal)
  let beforeText ← inContext
    (some ("Failed to read before schema from ".toList ++ beforeOrigin.describe))
    (beforeOrigin.read host)
  let afterOrigin ← (settings.afterOrigin host : m Origin)
  let afterText ← inContext
    (some ("Failed to read after schema from ".toList ++ afterOrigin.describe))
    (afterOrigin.read host)
  let before ← orComplain (some "Invalid before schema".toList)
    (Schema.read beforeText beforeDialect)
  let after ← orComplain (some "Invalid after schema".toList) (Schema.read afterText afterDialect)
  return arguments.format.print outputDialect (Delta.between before after settings.options)

/-! ### The program -/

/-- The program on a command line. -/
def run {m : Type → Type} [Monad m] (host : Host m) (words : List Text)
    (environment : Option Text) (terminal : Bool) : m Ending := do
  match Arguments.read words environment with
  | .error .version => return .printed versionText
  | .error (.help topic) => return .printed (topic.text environment)
  | .error .usage => return .usage
  | .ok arguments =>
    match ← (printDelta host arguments terminal).run with
    | .ok text => return .printed text
    | .error complaint => return .complained complaint

end SchemaDelta
