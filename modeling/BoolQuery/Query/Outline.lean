import BoolQuery.Query.Basic

/-!
# Outlines

An outline shows a tree with one node on each row, each node before its children, and each
level indented by two more spaces.

## Main definitions

* `OutlineRow`, `Node.rows`: the rows of the outline of a tree.
* `Node.outline`, `Query.outline`: the outline of a tree and of a query.
-/

namespace BoolQuery

/-- A row of an outline. -/
structure OutlineRow where
  /-- The number of nodes above. -/
  level : Nat
  /-- The node on one line: a term, or the name of an operator. -/
  label : Text
deriving DecidableEq, Repr

/-- A row, indented and with a line feed at its end. -/
def OutlineRow.write (row : OutlineRow) : Text :=
  List.replicate (2 * row.level) ' ' ++ row.label ++ ['\n']

namespace Node

/-- The rows for a tree whose root is at `level`. -/
def rows (level : Nat) : Node → List OutlineRow
  | .term t => [⟨level, t.display⟩]
  | .not child => ⟨level, "Not".toList⟩ :: child.rows (level + 1)
  | .and left right =>
    ⟨level, "And".toList⟩ :: (left.rows (level + 1) ++ right.rows (level + 1))
  | .or left right =>
    ⟨level, "Or".toList⟩ :: (left.rows (level + 1) ++ right.rows (level + 1))

/-- The outline of a tree. -/
def outline (n : Node) : Text :=
  (n.rows 0).flatMap OutlineRow.write

end Node

/-- The outline of a query. -/
def Query.outline (q : Query) : Text :=
  match q.root with
  | none => "(empty)\n".toList
  | some root => root.outline

end BoolQuery
