import BoolQuery.Toml.StringReader
import BoolQuery.Toml.Table

/-!
# Reading TOML Documents

Documents are read in the dialect of TOML 1.1: inline tables may run over several lines, with
comments, and end in a comma; only a key stays on one line. Readers work from the front of a
text and give what they read with the text behind it; `none` says that the text is not a
document.

Values nest to a bounded depth. The depth is an argument of the reader of values, which goes
down by one in each array and inline table.

## Main definitions

* `Toml.readKey?`, `Toml.readValue?`, `Toml.readStatement?`: the parts of a document.
* `Toml.readStatements?`: the statements of a document.
* `Toml.read?`: the table that a document stands for.
-/

namespace BoolQuery.Toml

/-! ### Comments and line ends -/

/-- The text without a comment at its front; the line end stays. -/
def skipComment : Text → Text
  | '#' :: t => t.dropWhile isPlain
  | t => t

/-- The text behind the end of the line, before which only blanks and a comment may stand. -/
def endLine? (t : Text) : Option Text :=
  match skipComment (t.dropWhile isSpace) with
  | [] => some []
  | rest => afterNewline? rest

/-- The text without the blanks, line ends and comments at its front; `inComment` says that
it begins within a comment. -/
def skipFiller (inComment : Bool) : Text → Text
  | [] => []
  | '\r' :: '\n' :: t => skipFiller false t
  | c :: t =>
    if c = '\n' then skipFiller false t
    else if inComment then if isPlain c then skipFiller true t else c :: t
    else if isSpace c then skipFiller false t
    else if c = '#' then skipFiller true t
    else c :: t

/-! ### Keys -/

/-- True for the characters of a name without quotation marks. -/
def isBare (c : Char) : Bool :=
  c.isAlphanum || c == '_' || c == '-'

/-- A name, bare or as a string on one line. -/
def readName? (t : Text) : Option (Text × Text) :=
  match t.takeWhile isBare with
  | [] => readLine? t
  | name => some (name, t.dropWhile isBare)

/-- The rest of a key behind its first name. -/
def readKeyFrom? (name : Text) (t : Text) : Option (Key × Text) :=
  match t.dropWhile isSpace with
  | '.' :: rest =>
    match readName? (rest.dropWhile isSpace) with
    | none => none
    | some (next, rest') =>
      if rest'.length < t.length then
        (readKeyFrom? next rest').map fun r => ({ r.1 with parents := name :: r.1.parents }, r.2)
      else none
  | _ => some ({ parents := [], last := name }, t.dropWhile isSpace)
termination_by t.length

/-- A key, with the blanks behind it. -/
def readKey? (t : Text) : Option (Key × Text) :=
  match readName? t with
  | none => none
  | some (name, rest) => readKeyFrom? name rest

/-- A key and the equals sign behind it, with what `skip` passes over on both sides of the
sign. -/
def readKeyEquals? (skip : Text → Text) (t : Text) : Option (Key × Text) :=
  match readKey? t with
  | none => none
  | some (key, rest) =>
    match skip rest with
    | '=' :: rest' => some (key, skip rest')
    | _ => none

/-! ### Values -/

/-- True for the characters of a literal: all but blanks, line ends and the marks that end a
value or begin another one. -/
def isLiteralChar (c : Char) : Bool :=
  c ∉ [' ', '\t', '\r', '\n', ',', '=', '#', '[', ']', '\x7b', '\x7d']

/-- An unquoted value. A date and a time may have one space between them. -/
def readLiteralValue? (t : Text) : Option (Value × Text) :=
  let first := t.takeWhile isLiteralChar
  let rest := t.dropWhile isLiteralChar
  match rest with
  | ' ' :: c :: more =>
    if afterDate? first = some [] ∧ c.isDigit then
      let second := (c :: more).takeWhile isLiteralChar
      (Value.ofLiteral? (first ++ ' ' :: second)).map
        (·, (c :: more).dropWhile isLiteralChar)
    else (Value.ofLiteral? first).map (·, rest)
  | _ => (Value.ofLiteral? first).map (·, rest)

/-- Items separated by commas up to the mark `closing`, each read by `item`. A comma may
stand behind the last one. -/
def readItems? {α : Type} (closing : Char) (item : Text → Option (α × Text)) (t : Text) :
    Option (List α × Text) :=
  match skipFiller false t with
  | [] => none
  | c :: rest =>
    if c = closing then some ([], rest)
    else match item (c :: rest) with
      | none => none
      | some (a, behind) =>
        match skipFiller false behind with
        | ',' :: more =>
          if more.length < t.length then
            (readItems? closing item more).map fun r => (a :: r.1, r.2)
          else none
        | c' :: more => if c' = closing then some ([a], more) else none
        | [] => none
termination_by t.length

/-- A value, in which arrays and inline tables nest at most `depth` deep. -/
def readValue? : (depth : Nat) → Text → Option (Value × Text)
  | 0, t =>
    match t with
    | '"' :: _ | '\'' :: _ => (readString? t).map fun r => (.string r.1, r.2)
    | _ => readLiteralValue? t
  | depth + 1, t =>
    match t with
    | '"' :: _ | '\'' :: _ => (readString? t).map fun r => (.string r.1, r.2)
    | '[' :: rest =>
      (readItems? ']' (readValue? depth) rest).map fun r => (.array false r.1, r.2)
    | '\x7b' :: rest => do
      let (entries, behind) ← readItems? '\x7d' (fun t => do
        let (key, t) ← readKeyEquals? (skipFiller false) t
        let (value, t) ← readValue? depth t
        pure ((key, value), t)) rest
      let members ← Members.ofEntries? entries
      pure (.table .inline members, behind)
    | _ => readLiteralValue? t

/-- The greatest depth of arrays and inline tables within each other. -/
def maxNesting : Nat := 80

/-! ### Statements -/

/-- A header, read behind its first bracket, or an entry, with the end of its line. -/
def readStatement? (t : Text) : Option (Statement × Text) :=
  match t with
  | '[' :: '[' :: rest =>
    match readKey? (rest.dropWhile isSpace) with
    | some (key, ']' :: ']' :: behind) => (endLine? behind).map (Statement.element key, ·)
    | _ => none
  | '[' :: rest =>
    match readKey? (rest.dropWhile isSpace) with
    | some (key, ']' :: behind) => (endLine? behind).map (Statement.table key, ·)
    | _ => none
  | t =>
    match readKeyEquals? (List.dropWhile isSpace) t with
    | none => none
    | some (key, rest) =>
      match readValue? maxNesting rest with
      | none => none
      | some (value, behind) => (endLine? behind).map (Statement.entry key value, ·)

/-- The statements of a document. -/
def readStatements? (t : Text) : Option (List Statement) :=
  match skipFiller false t with
  | [] => some []
  | c :: rest =>
    match readStatement? (c :: rest) with
    | none => none
    | some (statement, behind) =>
      if behind.length < t.length then (readStatements? behind).map (statement :: ·) else none
termination_by t.length

/-- The text without a byte order mark at its front. -/
def skipMark : Text → Text
  | '\ufeff' :: t => t
  | t => t

/-- The table that a document stands for; none if the text is not a document. -/
def read? (t : Text) : Option Members := do
  let statements ← readStatements? (skipMark t)
  Members.ofStatements? statements

end BoolQuery.Toml
