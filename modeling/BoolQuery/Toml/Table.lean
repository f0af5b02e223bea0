import BoolQuery.Toml.Value

/-!
# From Statements to a Table

Apart from comments and blank lines, a TOML document is a row of statements: headers
`[name]`, headers `[[name]]`, and entries `key = value`. Taken in order they build one table.
Nothing may be defined twice, and a table that was written in full may not be added to.

## Main definitions

* `Toml.Key`: a dotted key.
* `Toml.Members.update`: changes what a name stands for.
* `Toml.Members.within`: changes the table at the end of a path, making tables on the way.
* `Toml.Members.define`: defines a dotted key.
* `Toml.Statement`, `Toml.Draft`: statements, and the table built so far.
* `Toml.Members.ofStatements?`: the table that a row of statements builds.
-/

namespace BoolQuery.Toml

/-- A key: names separated by dots. -/
structure Key where
  /-- The names before the last one. -/
  parents : List Text
  /-- The last name. -/
  last : Text
deriving DecidableEq, Repr

/-- All names of a key. -/
def Key.path (k : Key) : List Text :=
  k.parents ++ [k.last]

namespace Members

/-- Changes what `name` stands for, which `f` computes from what it stood for before. A new
name goes to the end. -/
def update (f : Option Value → Option Value) (name : Text) : Members → Option Members
  | [] => (f none).map fun v => [(name, v)]
  | (n, v) :: rest =>
    if n = name then (f (some v)).map fun v' => (n, v') :: rest
    else (update f name rest).map ((n, v) :: ·)

/-- Changes the table that a name on the way to something else stands for. A name that stands
for nothing becomes a table; a growing array stands for its last table. Tables in braces are
complete, and a dotted key does not reach into a table that has its own header. -/
def enter (isDotted : Bool) (f : Origin → Members → Option Members) :
    Option Value → Option Value
  | none =>
    let origin := if isDotted then .dotted else .implied
    (f origin []).map (Value.table origin)
  | some (.table origin members) =>
    if origin = .inline || isDotted && origin = .header then none
    else (f origin members).map (Value.table origin)
  | some (.array true items) =>
    match items.getLast? with
    | some (.table origin members) =>
      (f origin members).map fun members' =>
        Value.array true (items.dropLast ++ [Value.table origin members'])
    | _ => none
  | some _ => none

/-- Changes the table at the end of a path of names. -/
def within (isDotted : Bool) (f : Origin → Members → Option Members) :
    List Text → Origin → Members → Option Members
  | [], origin, members => f origin members
  | name :: path, _, members => update (enter isDotted (within isDotted f path)) name members

/-- Gives a value to a name that has none. A table that exists only through dotted keys gets
values only by dotted keys, and other tables only by simple ones. -/
def insertNew (isDotted : Bool) (name : Text) (value : Value) (origin : Origin)
    (members : Members) : Option Members :=
  if (origin = .dotted) = isDotted then
    update (fun old => if old.isSome then none else some value) name members
  else none

/-- Gives a value to a dotted key of a table. -/
def define (key : Key) (value : Value) (origin : Origin) (members : Members) : Option Members :=
  within true (insertNew (!key.parents.isEmpty) key.last value) key.parents origin members

/-- The table that inline entries build, taken in order. -/
def ofEntries? (entries : List (Key × Value)) : Option Members :=
  entries.foldlM (fun members entry => define entry.1 entry.2 .header members) []

end Members

/-- A statement of a document. -/
inductive Statement where
  /-- A header `[name]`: the entries that follow belong to that table. -/
  | table (key : Key)
  /-- A header `[[name]]`: the entries that follow belong to a new table at the end of that
  array. -/
  | element (key : Key)
  /-- An entry `key = value`. -/
  | entry (key : Key) (value : Value)

/-- The table built so far. -/
structure Draft where
  /-- Its members. -/
  members : Members := []
  /-- The path of the table that entries belong to. -/
  path : List Text := []

namespace Draft

/-- What a name stands for after a header `[name]`. A table may have one such header, unless
it exists through dotted keys. -/
def openTable : Option Value → Option Value
  | none => some (.table .header [])
  | some (.table .implied members) => some (.table .header members)
  | some _ => none

/-- What a name stands for after a header `[[name]]`. -/
def openElement : Option Value → Option Value
  | none => some (.array true [.table .header []])
  | some (.array true items) => some (.array true (items ++ [.table .header []]))
  | some _ => none

/-- The draft after a header that changes what its last name stands for by `f`. -/
def addHeader (s : Draft) (f : Option Value → Option Value) (key : Key) : Option Draft :=
  (Members.within false (fun _ => Members.update f key.last) key.parents .header s.members).map
    fun members => { members, path := key.path }

/-- The draft after a statement. -/
def add (s : Draft) : Statement → Option Draft
  | .table key => s.addHeader openTable key
  | .element key => s.addHeader openElement key
  | .entry key value =>
    (Members.within false (Members.define key value) s.path .header s.members).map fun members =>
      { s with members }

end Draft

/-- The table that a row of statements builds; none if they contradict each other. -/
def Members.ofStatements? (statements : List Statement) : Option Members :=
  (statements.foldlM Draft.add {}).map Draft.members

end BoolQuery.Toml
