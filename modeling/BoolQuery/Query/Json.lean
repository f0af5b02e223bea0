import BoolQuery.Json
import BoolQuery.Query.Basic

/-!
# Queries as JSON

A node is an object with a single member, named for what the node is; the metadata that a
term does not have is left out. The empty query is `null`.

## Main definitions

* `Node.json`: a tree as JSON.
* `Query.json`: a query as JSON.
-/

namespace BoolQuery

/-- A term as JSON at a level. -/
def Term.json (l : Json.Layout) (level : Nat) (t : Term) : Json.Writer :=
  let members := [("value", some t.value), ("field", t.field), ("operator", t.operator),
    ("modifier", t.modifier)]
  Json.object l level <| members.filterMap fun m =>
    m.2.map fun part => (m.1.toList, Json.string part)

/-- A tree as JSON at a level. -/
def Node.json (l : Json.Layout) (level : Nat) : Node → Json.Writer
  | .term t => Json.object l level [("term".toList, t.json l (level + 1))]
  | .not child => Json.object l level [("not".toList, child.json l (level + 1))]
  | .and left right =>
    Json.object l level [("and".toList,
      Json.array l (level + 1) [left.json l (level + 2), right.json l (level + 2)])]
  | .or left right =>
    Json.object l level [("or".toList,
      Json.array l (level + 1) [left.json l (level + 2), right.json l (level + 2)])]

/-- A query as JSON. -/
def Query.json (l : Json.Layout) (q : Query) : Text :=
  match q.root with
  | none => "null".toList
  | some root => root.json l 0 []

end BoolQuery
