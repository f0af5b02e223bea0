import BoolQuery.Query.Basic

/-!
# Canonical Query Text

A tree is written back as query text in which every conjunction and disjunction stands in
parentheses, as in `(a OR (b AND NOT c))`. Values stand in quotes exactly if they would not be
read back as they are.

## Main definitions

* `Term.needsQuotes`: when a value stands in quotes.
* `Node.canonical`, `Query.canonical`: the written form in a dialect.
-/

namespace BoolQuery

namespace Term

/-- True when the value would not be read back as it is: it is empty, it is a keyword, or it
holds white space, a field delimiter or a bracket. -/
def needsQuotes (d : Dialect) (value : Text) : Bool :=
  value.isEmpty
    || Operator.all.any (fun op => value == d.keyword op)
    || value.any fun c => Text.isBlank c || c == d.fieldDelimiter || (d.bracket? c).isSome

/-- A value as it is written in a query. -/
def canonicalValue (d : Dialect) (value : Text) : Text :=
  if needsQuotes d value then d.quote :: (value ++ [d.quote]) else value

/-- A bracketed part of a field specification; nothing for an absent part. -/
def canonicalSection (p : BracketPair) : Option Text → Text
  | none => []
  | some part => p.opening :: (part ++ [p.closing])

/-- The field specification of a term with its delimiter; nothing for a term without one. -/
def canonicalField (d : Dialect) (t : Term) : Text :=
  match t.field with
  | none => []
  | some field =>
    field ++ canonicalSection d.modifier t.modifier
      ++ canonicalSection d.fieldOperator t.operator ++ [d.fieldDelimiter]

/-- A term as it is written in a query. -/
def canonical (d : Dialect) (t : Term) : Text :=
  t.canonicalField d ++ canonicalValue d t.value

end Term

/-- Two operands and the keyword between them, in parentheses. -/
def Dialect.infixed (d : Dialect) (op : Operator) (left right : Text) : Text :=
  d.group.opening :: (left ++ ' ' :: (d.keyword op ++ ' ' :: (right ++ [d.group.closing])))

/-- A tree as it is written in a query. -/
def Node.canonical (d : Dialect) : Node → Text
  | .term t => t.canonical d
  | .not child => d.keyword .not ++ ' ' :: child.canonical d
  | .and left right => d.infixed .and (left.canonical d) (right.canonical d)
  | .or left right => d.infixed .or (left.canonical d) (right.canonical d)

/-- A query as text; the empty query is the empty text. -/
def Query.canonical (d : Dialect) (q : Query) : Text :=
  match q.root with
  | none => []
  | some root => root.canonical d

end BoolQuery
