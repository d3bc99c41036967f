/-
**The program.**

The operating system as a host, and the entry point.

Main definitions:

* `SchemaDelta.systemHost` — files and standard input of the operating system;
* `main` — the program on the words of its command line.
-/

import SchemaDelta.Command.Run

set_option relaxedAutoImplicit false
set_option autoImplicit false

namespace SchemaDelta

/-- The number of an error, which some requests give with a minus sign. -/
def systemCode (code : UInt32) : UInt32 :=
  min code (0 - code)

/-- The reason why the operating system does not give the contents of a file. -/
def FileError.ofSystem (e : IO.Error) : FileError :=
  match e with
  | .noFileOrDirectory _ _ _ => .notFound
  | .inappropriateType _ code _ =>
    if systemCode code = 20 then .notADirectory
    else if systemCode code = 21 then .isADirectory
    else .other (toString e)
  | _ => .other (toString e)

/-- The contents of a file. -/
def systemReadFile (path : Text) : IO (Except FileError Text) := do
  try
    return .ok (← IO.FS.readFile (String.ofList path)).toList
  catch e =>
    return .error (.ofSystem e)

/-- The operating system as a host. -/
def systemHost (settingsDirectory : Option Text) : Host IO where
  readFile := systemReadFile
  isFile path := do
    match ← systemReadFile path with
    | .ok _ => return true
    | .error _ => return false
  stdin := do
    return (← (← IO.getStdin).readToEnd).toList
  settingsDirectory := settingsDirectory

/-- The directory of the user's settings: the one that the environment names, provided that its
path is absolute, or else the standard one below the user's home. -/
def systemSettingsDirectory : IO (Option Text) := do
  match (← IO.getEnv "XDG_CONFIG_HOME").map String.toList with
  | some ('/' :: path) => return some ('/' :: path)
  | _ => return (← IO.getEnv "HOME").map fun home => home.toList ++ "/.config".toList

end SchemaDelta

open SchemaDelta in
/-- The program on the words of its command line. -/
def main (words : List String) : IO UInt32 := do
  let host := systemHost (← systemSettingsDirectory)
  let environment := (← IO.getEnv "DDL_DIFF_CONFIG").map String.toList
  let terminal ← (← IO.getStdin).isTty
  let ending ← run host (words.map String.toList) environment terminal
  (← IO.getStdout).putStr (String.ofList ending.stdout)
  (← IO.getStderr).putStr (String.ofList ending.stderr)
  return UInt32.ofNat ending.exitCode
