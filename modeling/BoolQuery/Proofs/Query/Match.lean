import BoolQuery.Query.Match
import Mathlib.Tactic.Common

/-!
# The Value of a Tree

With a plain matcher, a tree has the value that the boolean operators give it, and a candidate
matches if it is not empty and the value is true. So a conjunction matches what both of its sides
match.

## Main definitions

* `Node.eval`: the value of a tree under a plain valuation of its terms.

## Main results

* `Node.acceptsWith_eq`: matching with any plain matcher, by the value of the tree.
* `Node.accepts_eq_true_iff`: matching with the usual one.
* `Node.accepts_and`: what a conjunction matches.
-/

namespace BoolQuery

namespace Node

/-- The value of a tree when `leaf` gives the values of its terms. -/
def eval (leaf : Term → Bool) : Node → Bool
  | term t => leaf t
  | not child => !child.eval leaf
  | and left right => left.eval leaf && right.eval leaf
  | or left right => left.eval leaf || right.eval leaf

variable (leaf : Term → Bool)

@[simp] theorem eval_term (t : Term) : (term t).eval leaf = leaf t := rfl

@[simp] theorem eval_not (child : Node) : (not child).eval leaf = !child.eval leaf := rfl

@[simp] theorem eval_and (left right : Node) :
    (and left right).eval leaf = (left.eval leaf && right.eval leaf) := rfl

@[simp] theorem eval_or (left right : Node) :
    (or left right).eval leaf = (left.eval leaf || right.eval leaf) := rfl

/-- **Matching with a plain matcher** asks for the value of the tree, unless the candidate is
empty. -/
theorem acceptsWith_eq (matcher : Term → Text → Bool) (candidate : Text) (n : Node) :
    n.acceptsWith matcher candidate = (!candidate.isEmpty && n.eval (matcher · candidate)) := by
  -- All parts of the tree see one candidate, so it is empty for all of them or for none.
  cases candidate with
  | nil => cases n <;> rfl
  | cons c candidate =>
      induction n with
      | term t => rfl
      | not child ih => exact congrArg (!·) ih
      | and left right ihl ihr =>
          have hboth : (and left right).acceptsWith matcher (c :: candidate) =
            (left.acceptsWith matcher (c :: candidate) &&
              right.acceptsWith matcher (c :: candidate)) := rfl
          rw [hboth, ihl, ihr]
          rfl
      | or left right ihl ihr =>
          have hboth : (or left right).acceptsWith matcher (c :: candidate) =
            (left.acceptsWith matcher (c :: candidate) ||
              right.acceptsWith matcher (c :: candidate)) := rfl
          rw [hboth, ihl, ihr]
          rfl

/-- With the usual matcher, the value is that of the terms that occur in the candidate. -/
theorem accepts_eq (candidate : Text) (n : Node) :
    n.accepts candidate = (!candidate.isEmpty && n.eval fun t => t.occursIn candidate) :=
  acceptsWith_eq Term.occursIn candidate n

/-- **A candidate matches** if it is not empty and the value of the tree is true. -/
theorem accepts_eq_true_iff {candidate : Text} {n : Node} : n.accepts candidate = true ↔
    candidate ≠ [] ∧ n.eval (fun t => t.occursIn candidate) = true := by
  simp [accepts_eq]

/-- **A conjunction matches** what both of its sides match. -/
theorem accepts_and (candidate : Text) (left right : Node) :
    (and left right).accepts candidate = (left.accepts candidate && right.accepts candidate) := by
  rw [accepts_eq, accepts_eq, accepts_eq, eval_and]
  cases candidate.isEmpty <;> simp

end Node

namespace Query

/-- The empty query matches nothing. -/
@[simp] theorem accepts_none (candidate : Text) : (mk none).accepts candidate = false := rfl

/-- A query matches what its tree matches. -/
@[simp] theorem accepts_some (candidate : Text) (root : Node) :
    (mk (some root)).accepts candidate = root.accepts candidate := rfl

/-- The empty candidate matches nothing. -/
@[simp] theorem accepts_nil (q : Query) : q.accepts [] = false := by
  cases q with
  | mk root => cases root <;> simp [Node.accepts_eq]

end Query

end BoolQuery
