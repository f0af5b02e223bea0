import BoolQuery.Config.Record
import BoolQuery.Files.Basic
import BoolQuery.Query.Parse
import BoolQuery.Toml.Reader
import BoolQuery.Toml.Section

/-!
# Configuration

A configuration is a TOML document whose table `syntax` describes a dialect. The document that
applies to a directory is the file `.textquery.toml` in it or in the nearest directory above
it that has one; if none has, the one in the home directory applies, and if that is missing
too, the standard dialect.

Only one document is ever used. If it cannot be read, or describes no usable dialect, that is
an error, whatever other documents there are.

## Main definitions

* `Config`: a dialect and where it came from.
* `ConfigError`: what can go wrong.
* `Dialect.ofDocument`: the dialect that a document describes.
* `Dialect.sections`, `Dialect.document`: the document that describes a dialect.
* `Config.find?`: the file that applies.
* `Config.loadFile`, `Config.load`: the configuration in a file, and the one that applies.
* `Config.parser`: the parser for the dialect of a configuration.
-/

namespace BoolQuery

/-- A configuration. -/
structure Config where
  /-- The dialect in force. -/
  dialect : Dialect
  /-- The file that describes it; none for the standard one. -/
  source : Option Path
deriving DecidableEq, Repr

/-- What can go wrong with a configuration file. -/
inductive ConfigError where
  /-- The file cannot be read. -/
  | unreadable (path : Path) (reason : FileError)
  /-- The file is not a TOML document of the right shape. -/
  | malformed (path : Path)
  /-- The file describes a dialect that cannot be used. -/
  | unusable (path : Path) (reason : DialectError)
deriving DecidableEq, Repr

/-- The wording of an error. -/
def ConfigError.message : ConfigError → Text
  | .unreadable path reason =>
    "failed to read config file ".toList ++ path ++ ": ".toList ++ reason.message
  | .malformed path => "failed to parse config file ".toList ++ path
  | .unusable path reason =>
    "invalid query syntax in ".toList ++ path ++ ": ".toList ++ reason.message

/-! ### Documents -/

/-- The dialect in the table `syntax` of a document, usable or not. -/
def Dialect.ofMembers? (members : Toml.Members) : Option Dialect := do
  let fields ← (Toml.Value.table .header members).fields? .ignored ["syntax".toList]
  fieldOr standard (ofValue? .ignored) (fields.lookup "syntax".toList)

/-- The dialect that the document `t` describes; `path` is where the document is. -/
def Dialect.ofDocument (path : Path) (t : Text) : Except ConfigError Dialect :=
  match (Toml.read? t).bind Dialect.ofMembers? with
  | none => .error (.malformed path)
  | some d =>
    match d.check with
    | .error reason => .error (.unusable path reason)
    | .ok () => .ok d

/-- The section that describes a pair of brackets. -/
def BracketPair.toSection (name : Text) (p : BracketPair) : Toml.Section where
  path := ["syntax".toList, name]
  entries := [("open".toList, [p.opening]), ("close".toList, [p.closing])]

/-- The sections of the document that describes a dialect. -/
def Dialect.sections (d : Dialect) : List Toml.Section :=
  [ { path := ["syntax".toList]
      entries := [("field_delimiter".toList, [d.fieldDelimiter]), ("quote".toList, [d.quote])] },
    d.group.toSection "group".toList,
    d.fieldOperator.toSection "field_operator".toList,
    d.modifier.toSection "modifier".toList,
    { path := ["syntax".toList, "keywords".toList]
      entries := [("and".toList, d.keywords.and), ("or".toList, d.keywords.or),
        ("not".toList, d.keywords.not)] } ]

/-- The document that describes a dialect. -/
def Dialect.document (d : Dialect) : Text :=
  Toml.writeSections d.sections

/-! ### Files -/

namespace Config

/-- The parser for the dialect in force. -/
def parser (c : Config) : Except DialectError Parser :=
  Parser.ofDialect c.dialect

/-- The name of a configuration file. -/
def fileName : Text := ".textquery.toml".toList

/-- The configuration file in a home directory. -/
def globalPath? (home : Option Path) : Option Path :=
  home.map (·.join fileName)

/-- True when the path leads to the configuration file in the home directory. -/
def isGlobal (home : Option Path) (p : Path) : Bool :=
  (globalPath? home).any fun global => p.components == global.components

/-- Where a configuration that applies to the directory `start` may be, the nearest place
first. -/
def candidates (home : Option Path) (start : Path) : List Path :=
  start.ancestors.map (·.join fileName) ++ (globalPath? home).toList

variable {m : Type → Type} [Monad m]

/-- The configuration file that applies to the directory `start`. -/
def find? (files : Files m) (home : Option Path) (start : Path) : m (Option Path) :=
  files.firstFile? (candidates home start)

/-- The configuration that a file with the given content describes. -/
def ofFile (path : Path) (content : Except FileError Bytes) : Except ConfigError Config :=
  match content with
  | .error reason => .error (.unreadable path reason)
  | .ok bytes =>
    match Utf8.decode? bytes with
    | none => .error (.unreadable path .notText)
    | some t => (Dialect.ofDocument path t).map fun dialect => { dialect, source := some path }

/-- The configuration in a file. -/
def loadFile (files : Files m) (path : Path) : m (Except ConfigError Config) := do
  let content ← files.read path
  pure (ofFile path content)

/-- The configuration that applies to the directory `start`. -/
def load (files : Files m) (home : Option Path) (start : Path) :
    m (Except ConfigError Config) := do
  match ← find? files home start with
  | some path => loadFile files path
  | none => pure (.ok { dialect := .standard, source := none })

end Config

end BoolQuery
