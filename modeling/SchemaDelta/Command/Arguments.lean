/-
**The words of a command line.**

The program has one command, `diff`.  Some flags may stand before or after the command, the others
only after it.  A flag has a long name, `--name`, and may have a short one, `-n`; several short
names may share a dash.  The value of a flag is attached, `--name=value`, `-n=value` or `-nvalue`,
or it is the next word, which must then not look like a flag.  No flag is given twice in one place.

A request for help or for the version ends the reading, so what stands after it may be anything.
What stands before it has been found to be in order, but for one thing: a value that is a word of
its own stays open until the next flag in the same place.  Where the command comes next instead,
the value is judged only after the flags of the command.

Main definitions:

* `SchemaDelta.Flag`, `SchemaDelta.Flag.longName`, `SchemaDelta.Flag.shortName?` — the flags;
* `SchemaDelta.Arguments` — what a command line asks for;
* `SchemaDelta.Stop` — the other ways in which reading it may end;
* `SchemaDelta.Given`, `SchemaDelta.OpenFlag`, `SchemaDelta.Given.close` — the flags of one place;
* `SchemaDelta.readFlags` — the flags up to a word that is none;
* `SchemaDelta.Arguments.read` — the whole command line.
-/

import SchemaDelta.Command.Help
import SchemaDelta.Settings.Basic

set_option relaxedAutoImplicit false
set_option autoImplicit false

namespace SchemaDelta

/-! ### Flags -/

/-- The flags of the program. -/
inductive Flag where
  | verbose
  | config
  | help
  | version
  | dialect
  | beforeDialect
  | afterDialect
  | outputDialect
  | before
  | after
  | format
  | skipUnchanged
  deriving Repr, DecidableEq

/-- How a script is printed. -/
inductive Format where
  | sql
  | json
  deriving Repr, DecidableEq

namespace Flag

/-- The name after two dashes. -/
def longName : Flag → String
  | .verbose => "verbose"
  | .config => "config"
  | .help => "help"
  | .version => "version"
  | .dialect => "type"
  | .beforeDialect => "before-type"
  | .afterDialect => "after-type"
  | .outputDialect => "output-type"
  | .before => "before"
  | .after => "after"
  | .format => "format"
  | .skipUnchanged => "skip-unchanged"

/-- The name after one dash. -/
def shortName? : Flag → Option Char
  | .verbose => some 'v'
  | .help => some 'h'
  | .version => some 'V'
  | .dialect => some 't'
  | .before => some 'b'
  | .after => some 'a'
  | .format => some 'f'
  | _ => none

/-- Whether a flag has a value. -/
def takesValue : Flag → Bool
  | .verbose | .help | .version | .skipUnchanged => false
  | _ => true

/-- The flags of the program stand before the command, those of a command after it. -/
def ofTopic : Topic → List Flag
  | .program => [.verbose, .config, .help, .version]
  | .diff =>
    [.verbose, .config, .help, .dialect, .beforeDialect, .afterDialect, .outputDialect, .before,
      .after, .format, .skipUnchanged]
  | .help => []

/-- The values that a flag may have.  Paths are not empty, and a format is one of those there
are. -/
def admits (flag : Flag) (value : Text) : Bool :=
  match flag with
  | .config | .before | .after => !value.isEmpty
  | .format => value == "sql".toList || value == "json".toList
  | _ => true

end Flag

/-! ### Reading flags -/

/-- The ways in which a command line ends other than by being read in full. -/
inductive Stop where
  /-- It does not have the form of a command line. -/
  | usage
  /-- It asks for help. -/
  | help (topic : Topic)
  /-- It asks for the version. -/
  | version
  deriving Repr, DecidableEq

/-- The flags that were given in one place, with their values. -/
abbrev Given := List (Flag × Text)

/-- The flag whose value is still to come, or has come as a word of its own and is not judged
yet; if there is such a flag, it is the last one. -/
abbrev OpenFlag := Option (Flag × Option Text)

/-- Take note of a flag, unless it ends the reading or must not be given. -/
def Given.add (topic : Topic) (given : Given) (flag : Flag) (value : Text) : Except Stop Given :=
  match flag with
  | .help => .error (.help topic)
  | .version => .error .version
  | _ =>
    if given.any fun g => g.1 == flag then .error .usage
    else if flag.admits value then .ok (given ++ [(flag, value)])
    else .error .usage

/-- Take note of the flag that is open, if there is one.  Its value must have come. -/
def Given.close (topic : Topic) (given : Given) : OpenFlag → Except Stop Given
  | none => .ok given
  | some (_, none) => .error .usage
  | some (flag, some value) => given.add topic flag value

/-- The value of a flag. -/
def Given.value? (given : Given) (flag : Flag) : Option Text :=
  given.lookup flag

/-- Whether a flag was given. -/
def Given.has (given : Given) (flag : Flag) : Bool :=
  (given.value? flag).isSome

/-- A text without the equals sign that may stand before an attached value. -/
def withoutEquals : Text → Text
  | '=' :: t => t
  | t => t

/-- Short names that share a dash.  A flag that takes a value takes what follows its name; where
nothing does, it is left open. -/
def readShort (topic : Topic) : Text → Given → Except Stop (Given × OpenFlag)
  | [], given => .ok (given, none)
  | c :: t, given =>
    match (Flag.ofTopic topic).find? fun f => f.shortName? == some c with
    | none => .error .usage
    | some flag =>
      if flag.takesValue then
        if t.isEmpty then .ok (given, some (flag, none))
        else do return (← given.add topic flag (withoutEquals t), none)
      else do readShort topic t (← given.add topic flag [])

/-- A long name with an attached value or none.  A flag that takes a value and has none attached is
left open. -/
def readLong (topic : Topic) (t : Text) (given : Given) : Except Stop (Given × OpenFlag) :=
  match (Flag.ofTopic topic).find? fun f => f.longName.toList == t.takeWhile (· != '=') with
  | none => .error .usage
  | some flag =>
    match t.dropWhile (· != '='), flag.takesValue with
    | [], true => .ok (given, some (flag, none))
    | [], false => do return (← given.add topic flag [], none)
    | _ :: value, true => do return (← given.add topic flag value, none)
    | _ :: _, false => .error .usage

/-- Whether a word starts like a flag.  A single dash does not. -/
def looksLikeFlag (word : Text) : Bool :=
  match word with
  | '-' :: _ :: _ => true
  | _ => false

/-- The flags up to the first word that is neither a flag nor a value, with the flag that is open
there, that word and those after it; where there is no such word, to the end.  The word `--` ends
the flags, and no other word may follow it. -/
def readFlags (topic : Topic) :
    List Text → Given → OpenFlag → Except Stop (Given × OpenFlag × List Text)
  | [], given, opened => .ok (given, opened, [])
  | word :: words, given, some (flag, none) =>
    if looksLikeFlag word then .error .usage
    else readFlags topic words given (some (flag, some word))
  | word :: words, given, opened =>
    match word with
    | ['-', '-'] => if words.isEmpty then .ok (given, opened, []) else .error .usage
    | '-' :: '-' :: t => do
      let (given, opened) ← readLong topic t (← given.close topic opened)
      readFlags topic words given opened
    | '-' :: c :: t => do
      let (given, opened) ← readShort topic (c :: t) (← given.close topic opened)
      readFlags topic words given opened
    | _ => .ok (given, opened, word :: words)

/-! ### Command lines -/

/-- What a command line asks for. -/
structure Arguments where
  /-- The settings file. -/
  config : Option Text
  /-- What takes precedence over the settings. -/
  overrides : Overrides
  /-- The file of the earlier schema. -/
  before : Option Text
  /-- How the result is printed. -/
  format : Format
  deriving Repr, DecidableEq

/-- Whether a file that the environment names may take part.  In a place where the command line
names a settings file the environment has no say; elsewhere its file must not be an empty path. -/
def Given.admitsEnvironment (given : Given) (environment : Option Text) : Bool :=
  given.has .config || environment.all (Flag.admits .config)

/-- The arguments that the flags before and after the command amount to.  A settings file that is
named after the command is preferred to one before it, and that to the one of the environment. -/
def Arguments.ofGiven (before after : Given) (environment : Option Text) : Arguments where
  config := ((after.value? .config).or (before.value? .config)).or environment
  overrides :=
    { dialect := after.value? .dialect
      beforeName := after.value? .beforeDialect
      afterName := after.value? .afterDialect
      outputName := after.value? .outputDialect
      after := after.value? .after
      skipUnchanged := after.has .skipUnchanged }
  before := after.value? .before
  format := if after.value? .format = some "json".toList then .json else .sql

/-- The command line.  The environment may name a settings file. -/
def Arguments.read (words : List Text) (environment : Option Text) : Except Stop Arguments := do
  let (before, opened, rest) ← readFlags .program words [] none
  match rest with
  | [] => throw .usage
  | name :: words =>
    match Topic.ofCommand? name with
    | some .diff =>
      let (after, openedAfter, rest) ← readFlags .diff words [] none
      let after ← after.close .diff openedAfter
      let before ← before.close .program opened
      if rest.isEmpty && after.admitsEnvironment environment &&
          before.admitsEnvironment environment then
        return Arguments.ofGiven before after environment
      else throw .usage
    | some .help =>
      match Topic.asked? words with
      | some topic => throw (.help topic)
      | none => throw .usage
    | _ => throw .usage

end SchemaDelta
