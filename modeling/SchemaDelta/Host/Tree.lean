/-
**A host in memory.**

A tree of files is the list of their paths below the working directory, with their contents; the
directories are those that the paths run through.  A path is followed part by part, and every part
but the last has to be a directory.

Main definitions:

* `SchemaDelta.FileTree` — files with their paths;
* `SchemaDelta.FileTree.follow` — where a path leads;
* `SchemaDelta.FileTree.readFile`, `SchemaDelta.FileTree.host` — the tree as a host.
-/

import SchemaDelta.Host.Basic

set_option relaxedAutoImplicit false
set_option autoImplicit false

namespace SchemaDelta

/-- The parts of a path between slashes. -/
def Text.pathParts : Text → List Text
  | [] => [[]]
  | c :: t =>
    if c = '/' then [] :: pathParts t
    else
      match pathParts t with
      | [] => [[c]]
      | p :: ps => (c :: p) :: ps

/-- Files by the parts of their paths. -/
structure FileTree where
  /-- The files with their contents. -/
  files : List (List Text × Text)

namespace FileTree

/-- What a path leads to. -/
inductive Node where
  | file (contents : Text)
  | directory
  deriving Repr, DecidableEq

/-- The tree of the files with the given paths. -/
def ofList (files : List (Text × Text)) : FileTree :=
  ⟨files.map fun f => (f.1.pathParts, f.2)⟩

/-- What stands at a place in the tree.  The working directory is there in any case. -/
def node? (tree : FileTree) (place : List Text) : Option Node :=
  match tree.files.find? fun f => f.1 == place with
  | some f => some (.file f.2)
  | none =>
    if place.isEmpty || tree.files.any fun f => place.isPrefixOf f.1 then some .directory else none

/-- Where the remaining parts of a path lead from a place.  Empty parts and single dots stay there,
provided that it is a directory; two dots go up, and above the working directory there is nothing
to be found but directories on the way to it. -/
def follow (tree : FileTree) (place : List Text) : List Text → Except FileError Node
  | [] =>
    match tree.node? place with
    | some node => .ok node
    | none => .error .notFound
  | part :: parts =>
    match tree.node? place with
    | none => .error .notFound
    | some (.file _) => .error .notADirectory
    | some .directory =>
      if part = [] ∨ part = ['.'] then follow tree place parts
      else if part = ['.', '.'] then
        if place.isEmpty then
          if parts.all fun p => p = [] ∨ p = ['.'] ∨ p = ['.', '.'] then .ok .directory
          else .error .notFound
        else follow tree place.dropLast parts
      else follow tree (place ++ [part]) parts

/-- What a path leads to.  The empty path leads nowhere, and of what lies outside the working
directory only the root is known. -/
def lookup (tree : FileTree) (path : Text) : Except FileError Node :=
  match path with
  | [] => .error .notFound
  | '/' :: rest => if rest.all (· == '/') then .ok .directory else .error .notFound
  | c :: rest => tree.follow [] (Text.pathParts (c :: rest))

/-- The contents of the file at a path. -/
def readFile (tree : FileTree) (path : Text) : Except FileError Text :=
  match tree.lookup path with
  | .ok (.file contents) => .ok contents
  | .ok .directory => .error .isADirectory
  | .error why => .error why

/-- Whether there is a file at a path. -/
def isFile (tree : FileTree) (path : Text) : Bool :=
  match tree.lookup path with
  | .ok (.file _) => true
  | _ => false

/-- The tree as a host, with the given text on standard input. -/
def host (tree : FileTree) (stdin : Text) (settingsDirectory : Option Text) : Host Id where
  readFile path := tree.readFile path
  isFile path := tree.isFile path
  stdin := stdin
  settingsDirectory := settingsDirectory

end FileTree

end SchemaDelta
