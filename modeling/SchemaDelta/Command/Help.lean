/-
**What the program says about itself.**

Help can be asked about the program as a whole, about its command `diff`, and about the command
`help` itself.  Each answer says what its subject is for, in which form it is called, and which
commands and flags it has.

Main definitions:

* `SchemaDelta.Topic` — what help can be asked about;
* `SchemaDelta.Topic.asked?` — the subject of the words after the command `help`;
* `SchemaDelta.Topic.text` — the answer;
* `SchemaDelta.versionText` — the name of the program and its version.
-/

import SchemaDelta.Text.Basic

set_option relaxedAutoImplicit false
set_option autoImplicit false

namespace SchemaDelta

/-- What help can be asked about. -/
inductive Topic where
  /-- The program as a whole. -/
  | program
  /-- The command that compares two schemas. -/
  | diff
  /-- The command that gives help. -/
  | help
  deriving Repr, DecidableEq

namespace Topic

/-- The name of a command. -/
def commandName? : Topic → Option String
  | .program => none
  | .diff => some "diff"
  | .help => some "help"

/-- The command of a name. -/
def ofCommand? (name : Text) : Option Topic :=
  [diff, help].find? fun topic => topic.commandName?.any fun s => s.toList == name

/-- The subject of the words after the command `help`: with no word the program, with one word the
command of that name.  No command has commands of its own, so a second word names nothing. -/
def asked? : List Text → Option Topic
  | [] => some .program
  | [name] => ofCommand? name
  | _ => none

/-- What is said about the flag for a settings file, with the file that the environment names. -/
def configNote (environment : Option Text) : Text :=
  "Path to a config file (default: ./ddl-diff.toml) [env: DDL_DIFF_CONFIG=".toList ++
    environment.getD [] ++ "]\n".toList

/-- The answer to a request for help.  The environment may name a settings file. -/
def text (environment : Option Text) : Topic → Text
  | .program =>
    ("Diff two SQL DDL schemas into a migration script\n\n" ++
      "Usage: ddl-diff [OPTIONS] <COMMAND>\n\n" ++
      "Commands:\n" ++
      "  diff  Print the migration from the before-schema to the after-schema\n" ++
      "  help  Print this message or the help of the given subcommand(s)\n\n" ++
      "Options:\n" ++
      "  -v, --verbose          Verbose output (debug logs on stderr)\n" ++
      "      --config <CONFIG>  ").toList ++ configNote environment ++
    ("  -h, --help             Print help\n" ++
      "  -V, --version          Print version\n\n" ++
      "EXAMPLES:\n" ++
      "    mysqldump --no-data shop | ddl-diff diff\n" ++
      "    ddl-diff diff --before old.sql --after new.sql --skip-unchanged\n" ++
      "    ddl-diff diff --before old.sql --type mysql --format json\n").toList
  | .diff =>
    ("Print the migration from the before-schema to the after-schema\n\n" ++
      "Usage: ddl-diff diff [OPTIONS]\n\n" ++
      "Options:\n" ++
      "  -t, --type <DIALECT>\n" ++
      "          SQL dialect of both schemas and the output (e.g. mysql)\n" ++
      "  -v, --verbose\n" ++
      "          Verbose output (debug logs on stderr)\n" ++
      "      --before-type <BEFORE_DIALECT>\n" ++
      "          Dialect of the before-schema\n" ++
      "      --config <CONFIG>\n" ++
      "          ").toList ++ configNote environment ++
    ("      --after-type <AFTER_DIALECT>\n" ++
      "          Dialect of the after-schema\n" ++
      "      --output-type <OUTPUT_DIALECT>\n" ++
      "          Dialect of the generated script\n" ++
      "  -b, --before <BEFORE>\n" ++
      "          Path to the before-schema (default: stdin)\n" ++
      "  -a, --after <AFTER>\n" ++
      "          Path to the after-schema (default: ./schema.sql)\n" ++
      "  -f, --format <FORMAT>\n" ++
      "          Output format [default: sql] [possible values: sql, json]\n" ++
      "      --skip-unchanged\n" ++
      "          Only emit CHANGE COLUMN for columns whose definition changed\n" ++
      "  -h, --help\n" ++
      "          Print help\n").toList
  | .help =>
    ("Print this message or the help of the given subcommand(s)\n\n" ++
      "Usage: ddl-diff help [COMMAND]...\n\n" ++
      "Arguments:\n" ++
      "  [COMMAND]...  Print help for the subcommand(s)\n").toList

end Topic

/-- What the program prints when it is asked for its version. -/
def versionText : Text :=
  "ddl-diff 0.1.0\n".toList

end SchemaDelta
