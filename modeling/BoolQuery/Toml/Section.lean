import BoolQuery.Toml.StringForm

/-!
# Writing TOML Documents

A document is written as a row of sections. A section is a header, the names of which need no
quotation marks, and below it one line for each entry, the value of which is a string. A
blank line separates sections.

## Main definitions

* `Toml.Section`: a section.
* `Toml.writeSections`: a document.
-/

namespace BoolQuery.Toml

/-- A section of a document. -/
structure Section where
  /-- The names in its header. -/
  path : List Text
  /-- Its entries, names and values. -/
  entries : List (Text × Text)
deriving DecidableEq, Repr

/-- An entry on a line of its own. -/
def writeEntry (entry : Text × Text) : Text :=
  entry.1 ++ " = ".toList ++ writeString entry.2 ++ ['\n']

/-- A section, header first. -/
def Section.write (s : Section) : Text :=
  '[' :: (List.intercalate ['.'] s.path ++ "]\n".toList ++ s.entries.flatMap writeEntry)

/-- A document made of sections. -/
def writeSections (sections : List Section) : Text :=
  List.intercalate ['\n'] (sections.map Section.write)

end BoolQuery.Toml
