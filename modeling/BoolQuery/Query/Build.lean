import BoolQuery.ParseError
import BoolQuery.Query.Basic
import BoolQuery.Token.Basic

/-!
# Trees from Postfix Order

A row of tokens in postfix order is folded into a tree with a stack of subtrees: a term is a
new subtree, an operator takes its operands from the top and puts the joined tree back.

Trees have a bounded number of levels, so that whoever walks over one needs only a bounded
number of nested calls.

## Main definitions

* `maxDepth`: the bound.
* `Subtree`: a finished part of the tree.
* `Subtree.step`: one token of the fold.
* `buildTree`: the whole fold.
-/

namespace BoolQuery

/-- The greatest number of levels a tree may have. -/
def maxDepth : Nat := 1000

/-- A finished part of the tree. -/
structure Subtree where
  /-- The tree. -/
  node : Node
  /-- The place of the token at its root. -/
  position : Nat
  /-- Its number of levels. -/
  depth : Nat
deriving DecidableEq, Repr

namespace Subtree

/-- Puts a tree with an operator at its root on the stack, whose children have `depth` levels
at most. -/
def join (node : Node) (position depth : Nat) (stack : List Subtree) :
    Except ParseError (List Subtree) :=
  if depth < maxDepth then .ok (⟨node, position, depth + 1⟩ :: stack)
  else .error { fault := .tooDeep, position }

/-- The stack after a token. The right operand is on top of the left one. Parentheses have no
place in postfix order. -/
def step (stack : List Subtree) (t : Token) : Except ParseError (List Subtree) :=
  match t.kind, stack with
  | .term term, stack => .ok (⟨.term term, t.position, 1⟩ :: stack)
  | .operator .not, child :: stack => join (.not child.node) t.position child.depth stack
  | .operator .and, right :: left :: stack =>
    join (.and left.node right.node) t.position (max left.depth right.depth) stack
  | .operator .or, right :: left :: stack =>
    join (.or left.node right.node) t.position (max left.depth right.depth) stack
  | .operator _, _ => .error { fault := .missingOperand, position := t.position }
  | .openGroup, _ => .error { fault := .missingClose, position := t.position }
  | .closeGroup, _ => .error { fault := .missingOpen, position := t.position }

/-- The query of a finished fold: one subtree at most may be left. -/
def finish (stack : List Subtree) : Except ParseError Query :=
  match stack.reverse with
  | [] => .ok .empty
  | [root] => .ok ⟨some root.node⟩
  | _ :: extra :: _ => .error { fault := .missingOperator, position := extra.position }

end Subtree

/-- Folds tokens in postfix order into a query. -/
def buildTree (ts : List Token) : Except ParseError Query := do
  let stack ← ts.foldlM Subtree.step []
  Subtree.finish stack

end BoolQuery
