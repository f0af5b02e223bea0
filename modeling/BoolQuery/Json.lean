import BoolQuery.Text.Basic

/-!
# JSON Text

Building blocks of JSON text in two layouts: all on one line without spaces, or with every
item of an array or object on a line of its own, indented by two spaces for each level. A
value is written in front of the text that follows it, so nothing is written twice, however
deep values are nested.

## Main definitions

* `Json.Layout`: the two layouts.
* `Json.Writer`: a value, as what it puts in front of a text.
* `Json.string`: a JSON string.
* `Json.array`, `Json.object`: arrays and objects that are not empty.
-/

namespace BoolQuery.Json

/-- How items are set apart. -/
inductive Layout where
  /-- Everything on one line, without spaces. -/
  | compact
  /-- Every item on a line of its own. -/
  | indented
deriving DecidableEq, Repr

/-- What stands before an item at a level. -/
def Layout.lineBreak (l : Layout) (level : Nat) : Text :=
  match l with
  | .compact => []
  | .indented => '\n' :: List.replicate (2 * level) ' '

/-- What stands between a key and its value. -/
def Layout.colon : Layout → Text
  | .compact => [':']
  | .indented => [':', ' ']

/-- A written value: puts its text in front of what follows. -/
abbrev Writer : Type := Text → Text

/-- The written form of a character in a string: quotation marks, backslashes and controls
are escaped, everything else stands for itself. -/
def escape (c : Char) : Text :=
  if c = '"' ∨ c = '\\' then ['\\', c]
  else if c = '\x08' then ['\\', 'b']
  else if c = '\x0c' then ['\\', 'f']
  else if c = '\n' then ['\\', 'n']
  else if c = '\r' then ['\\', 'r']
  else if c = '\t' then ['\\', 't']
  else if c.toNat < 0x20 then
    ['\\', 'u', '0', '0', Nat.digitChar (c.toNat / 16), Nat.digitChar (c.toNat % 16)]
  else [c]

/-- A string. -/
def string (t : Text) : Writer := fun rest =>
  '"' :: t.foldr (fun c written => escape c ++ written) ('"' :: rest)

/-- Items one after the other, set apart by a text. -/
def items (separator : Text) : List Writer → Writer
  | [], rest => rest
  | [item], rest => item rest
  | item :: more, rest => item (separator ++ items separator more rest)

/-- Items between two brackets, the opening one of which stands at `level`. -/
def enclosed (l : Layout) (level : Nat) (opening closing : Char) (inner : List Writer) :
    Writer := fun rest =>
  let before := l.lineBreak (level + 1)
  opening :: (before ++ items (',' :: before) inner (l.lineBreak level ++ closing :: rest))

/-- An array that is not empty. -/
def array (l : Layout) (level : Nat) (inner : List Writer) : Writer :=
  enclosed l level '[' ']' inner

/-- A member of an object. -/
def member (l : Layout) (name : Text) (value : Writer) : Writer := fun rest =>
  string name (l.colon ++ value rest)

/-- An object that is not empty. -/
def object (l : Layout) (level : Nat) (members : List (Text × Writer)) : Writer :=
  enclosed l level '{' '}' (members.map fun m => member l m.1 m.2)

end BoolQuery.Json
