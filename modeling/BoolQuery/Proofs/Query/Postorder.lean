import BoolQuery.Proofs.Fold
import BoolQuery.Proofs.Grammar
import BoolQuery.Query.Build

/-!
# Folding a Postorder Listing

The listing of a phrase folds back into its tree, on top of whatever subtrees are there
already, as long as the tree has no more levels than a tree may have. If it has more, the fold
fails at one of its operators, and for no other reason.

## Main results

* `Phrase.fold_postorder`: the fold of a listing, for a tree that is not too deep.
* `Phrase.fold_postorder_tooDeep`: the fold of a listing, for a tree that is.
* `Phrase.buildTree_postorder`, `Phrase.buildTree_postorder_tooDeep`: the same for a listing
  alone.
* `Phrase.buildTree_postorder_root`: a tree with only one level too many is refused at its root.
-/

namespace BoolQuery

/-- Joining subtrees of an admissible depth puts the joined tree on the stack. -/
theorem Subtree.join_of_lt {depth : Nat} (h : depth < maxDepth) (node : Node) (position : Nat)
    (stack : List Subtree) :
    Subtree.join node position depth stack = .ok (⟨node, position, depth + 1⟩ :: stack) :=
  if_pos h

/-- Joining subtrees that are as deep as a tree may be fails. -/
theorem Subtree.join_of_le {depth : Nat} (h : maxDepth ≤ depth) (node : Node) (position : Nat)
    (stack : List Subtree) :
    Subtree.join node position depth stack = .error { fault := .tooDeep, position } :=
  if_neg (Nat.not_lt.mpr h)

namespace Phrase

/-- The subtree that a phrase is folded into. -/
def subtree (p : Phrase) : Subtree :=
  ⟨p.node, p.root.position, p.node.depth⟩

/-- **A listing folds into its tree**, whatever lies below it on the stack. -/
theorem fold_postorder {p : Phrase} (h : p.node.depth ≤ maxDepth) (stack : List Subtree) :
    p.postorder.foldlM Subtree.step stack = .ok (p.subtree :: stack) := by
  induction p generalizing stack with
  | term t position => rfl
  | not position child ih =>
      have hchild : child.node.depth < maxDepth := h
      rw [postorder, foldlM_append_of_ok (ih (Nat.le_of_lt hchild) _), foldlM_singleton]
      exact Subtree.join_of_lt hchild ..
  | and position left right ihl ihr | or position left right ihl ihr =>
      have hmax : max left.node.depth right.node.depth < maxDepth := h
      have hleft : left.node.depth ≤ maxDepth := by omega
      have hright : right.node.depth ≤ maxDepth := by omega
      rw [postorder, List.append_assoc, foldlM_append_of_ok (ihl hleft _),
        foldlM_append_of_ok (ihr hright _), foldlM_singleton]
      exact Subtree.join_of_lt hmax ..

/-- **The listing of a tree that is too deep is refused as such**, at one of its operators:
the first one that would make a tree of too many levels. -/
theorem fold_postorder_tooDeep {p : Phrase} (h : maxDepth < p.node.depth)
    (stack : List Subtree) :
    ∃ position, p.postorder.foldlM Subtree.step stack
      = .error { fault := .tooDeep, position } := by
  induction p generalizing stack with
  | term t position => exact absurd h (Nat.not_lt.mpr (by decide : 1 ≤ maxDepth))
  | not position child ih =>
      rw [postorder]
      by_cases hchild : maxDepth < child.node.depth
      · obtain ⟨inner, hfold⟩ := ih hchild stack
        exact ⟨inner, foldlM_append_of_error hfold _⟩
      · have hchild : child.node.depth ≤ maxDepth := by omega
        have hdeep : maxDepth ≤ child.node.depth := Nat.lt_succ_iff.mp h
        rw [foldlM_append_of_ok (fold_postorder hchild _), foldlM_singleton]
        exact ⟨position, Subtree.join_of_le hdeep ..⟩
  | and position left right ihl ihr | or position left right ihl ihr =>
      rw [postorder, List.append_assoc]
      by_cases hleft : maxDepth < left.node.depth
      · obtain ⟨inner, hfold⟩ := ihl hleft stack
        exact ⟨inner, foldlM_append_of_error hfold _⟩
      have hleft : left.node.depth ≤ maxDepth := by omega
      rw [foldlM_append_of_ok (fold_postorder hleft _)]
      by_cases hright : maxDepth < right.node.depth
      · obtain ⟨inner, hfold⟩ := ihr hright (left.subtree :: stack)
        exact ⟨inner, foldlM_append_of_error hfold _⟩
      · have hright : right.node.depth ≤ maxDepth := by omega
        have hdeep : maxDepth ≤ max left.node.depth right.node.depth := Nat.lt_succ_iff.mp h
        rw [foldlM_append_of_ok (fold_postorder hright _), foldlM_singleton]
        exact ⟨position, Subtree.join_of_le hdeep ..⟩

/-- The tree of a phrase is built from its listing. -/
theorem buildTree_postorder {p : Phrase} (h : p.node.depth ≤ maxDepth) :
    buildTree p.postorder = .ok ⟨some p.node⟩ := by
  rw [buildTree, fold_postorder h]
  rfl

/-- A tree that is too deep is refused as such. -/
theorem buildTree_postorder_tooDeep {p : Phrase} (h : maxDepth < p.node.depth) :
    ∃ position, buildTree p.postorder = .error { fault := .tooDeep, position } := by
  obtain ⟨position, hfold⟩ := fold_postorder_tooDeep h []
  exact ⟨position, by rw [buildTree, hfold]; rfl⟩

/-- A tree with only one level too many is refused at its root, because no part of it is too
deep. -/
theorem buildTree_postorder_root {p : Phrase} (h : p.node.depth = maxDepth + 1) :
    buildTree p.postorder = .error { fault := .tooDeep, position := p.root.position } := by
  suffices hfold : p.postorder.foldlM Subtree.step []
      = .error { fault := .tooDeep, position := p.root.position } by
    rw [buildTree, hfold]
    rfl
  cases p with
  | term t position => exact absurd (Nat.succ.inj h) (by decide : 0 ≠ maxDepth)
  | not position child =>
      have hchild : child.node.depth = maxDepth := Nat.succ.inj h
      rw [postorder, foldlM_append_of_ok (fold_postorder (Nat.le_of_eq hchild) _), foldlM_singleton]
      exact Subtree.join_of_le (Nat.le_of_eq hchild.symm) ..
  | and position left right | or position left right =>
      have hmax : max left.node.depth right.node.depth = maxDepth := Nat.succ.inj h
      have hleft : left.node.depth ≤ maxDepth := by omega
      have hright : right.node.depth ≤ maxDepth := by omega
      rw [postorder, List.append_assoc, foldlM_append_of_ok (fold_postorder hleft _),
        foldlM_append_of_ok (fold_postorder hright _), foldlM_singleton]
      exact Subtree.join_of_le (Nat.le_of_eq hmax.symm) ..

end Phrase

end BoolQuery
