import BoolQuery.Files.Basic

/-!
# Trees of Files in Memory

A tree of files and directories, with the rules by which a path leads to one of them.

## Main definitions

* `FileTree`: a tree; every directory on the way to a file exists.
* `FileTree.walk`: follows a path, name by name.
* `FileTree.access`: access to the files of a tree from a working directory.
-/

namespace BoolQuery

/-- The names on the way from the root to a place. -/
abbrev Place : Type := List Text

/-- A tree of files and directories. -/
structure FileTree where
  /-- The regular files and their bytes. -/
  files : List (Place × Bytes) := []
  /-- Directories that exist even if there is no file in them. -/
  directories : List Place := []

namespace FileTree

/-- The bytes of the regular file at a place. -/
def file? (t : FileTree) (place : Place) : Option Bytes :=
  t.files.lookup place

/-- True when there is a directory at a place. -/
def isDirectory (t : FileTree) (place : Place) : Bool :=
  place.isEmpty || t.directories.any place.isPrefixOf
    || t.files.any fun f => place.isPrefixOf f.1 && place != f.1

/-- Follows names from a place. Only a directory can be left by a name; `..` leads to the
directory above, and the root is above itself. -/
def walk (t : FileTree) (here : Place) : List Text → Except FileError Place
  | [] => .ok here
  | name :: rest =>
    if !t.isDirectory here then .error .notDirectory
    else if Path.isIdle name then t.walk here rest
    else if name = ['.', '.'] then t.walk here.dropLast rest
    else
      let next := here ++ [name]
      if t.isDirectory next || (t.file? next).isSome then t.walk next rest else .error .missing

/-- The place that a path leads to from the working directory `cwd`. -/
def resolve (t : FileTree) (cwd : Place) (p : Path) : Except FileError Place :=
  match p with
  | [] => .error .missing
  | '/' :: rest => t.walk [] (rest.splitOn '/')
  | p => t.walk cwd (p.splitOn '/')

/-- The bytes of the file that a path leads to. -/
def read (t : FileTree) (cwd : Place) (p : Path) : Except FileError Bytes :=
  match t.resolve cwd p with
  | .error e => .error e
  | .ok place =>
    match t.file? place with
    | some bytes => .ok bytes
    | none => .error .isDirectory

/-- Access to the files of the tree from the working directory `cwd`. -/
def access (t : FileTree) (cwd : Place) : Files Id where
  isFile p := (t.read cwd p).isOk
  read p := t.read cwd p

end FileTree

end BoolQuery
