import BoolQuery.Dialect.Basic
import BoolQuery.Term

/-!
# Query Trees

A query is read into a binary tree: the leaves are terms, negation has one child, conjunction
and disjunction have two. A blank query has no tree; it is the empty query.

## Main definitions

* `Node`: a tree; `Node.operator?`, `Node.terms`, `Node.depth`.
* `Query`: a tree or nothing; `Query.terms`.
-/

namespace BoolQuery

/-- A query tree. -/
inductive Node where
  /-- A leaf. -/
  | term (t : Term)
  /-- A negation. -/
  | not (child : Node)
  /-- A conjunction. -/
  | and (left right : Node)
  /-- A disjunction. -/
  | or (left right : Node)
deriving DecidableEq, Repr

namespace Node

/-- The operator at the root; none at a leaf. -/
def operator? : Node → Option Operator
  | .term _ => none
  | .not _ => some .not
  | .and _ _ => some .and
  | .or _ _ => some .or

/-- The terms at the leaves, left to right. -/
def terms : Node → List Term
  | .term t => [t]
  | .not child => child.terms
  | .and left right => left.terms ++ right.terms
  | .or left right => left.terms ++ right.terms

/-- The number of levels: a leaf is one, each operator adds one. -/
def depth : Node → Nat
  | .term _ => 1
  | .not child => child.depth + 1
  | .and left right => max left.depth right.depth + 1
  | .or left right => max left.depth right.depth + 1

end Node

/-- A query: a tree, or nothing for the empty query. -/
structure Query where
  /-- The tree. -/
  root : Option Node
deriving DecidableEq, Repr

namespace Query

/-- The empty query. -/
def empty : Query := ⟨none⟩

/-- True for the empty query. -/
def isEmpty (q : Query) : Bool :=
  q.root.isNone

/-- The terms at the leaves, left to right. -/
def terms (q : Query) : List Term :=
  q.root.toList.flatMap Node.terms

end Query

end BoolQuery
