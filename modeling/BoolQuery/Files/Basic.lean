import BoolQuery.Files.Path
import BoolQuery.Text.Utf8

/-!
# Access to Files

What the library does with files goes through a record of two operations, so that the same
code runs on the files of the machine and on a tree of files held in memory, and can be
reasoned about for every state of a file system.

## Main definitions

* `FileError`: why a file cannot be read.
* `Files`: access to files, with effects in a monad.
-/

namespace BoolQuery

/-- Why a file cannot be read. -/
inductive FileError where
  /-- There is no such file. -/
  | missing
  /-- It is a directory. -/
  | isDirectory
  /-- A part of the path that should be a directory is not one. -/
  | notDirectory
  /-- Its bytes are not a text. -/
  | notText
  /-- It is a pipe whose other end is closed. -/
  | brokenPipe
  /-- Another reason, in the words of the system. -/
  | other (reason : Text)
deriving DecidableEq, Repr

/-- The wording of the reason. -/
def FileError.message : FileError → Text
  | .missing => "No such file or directory (os error 2)".toList
  | .isDirectory => "Is a directory (os error 21)".toList
  | .notDirectory => "Not a directory (os error 20)".toList
  | .notText => "stream did not contain valid UTF-8".toList
  | .brokenPipe => "Broken pipe (os error 32)".toList
  | .other reason => reason

/-- Access to files. -/
structure Files (m : Type → Type) where
  /-- True when the path leads to a regular file. -/
  isFile : Path → m Bool
  /-- The bytes of the file that the path leads to. -/
  read : Path → m (Except FileError Bytes)

/-- The first of the given paths that leads to a regular file. -/
def Files.firstFile? {m : Type → Type} [Monad m] (files : Files m) :
    List Path → m (Option Path)
  | [] => pure none
  | p :: rest => do
    if ← files.isFile p then pure (some p) else files.firstFile? rest

end BoolQuery
