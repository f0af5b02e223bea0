import BoolQuery.Proofs.Query.Postorder
import Mathlib.Data.List.Induction

/-!
# Rows of Listings

Between two tokens, the stack of the fold is a row of finished trees, and what has been read is
the row of their listings. A token extends the row if it can be the root of a tree over the last
ones of them. The row of trees and the token thus decide what happens next, and for a row of
tokens that is no listing of one tree they decide what is wrong with it.

## Main definitions

* `Phrase.children`: the operands of a phrase.
* `Folds ts ps`: the tokens `ts` are the listings of the phrases `ps`.
* `Stuck ps t fault`: the token `t` cannot be the root of a tree over the last ones of `ps`.

## Main results

* `Phrase.step_root`: the fold of a root token over its operands.
* `exists_folds_or_stuck`: a row of tokens is a row of listings up to a token that is stuck.
* `buildTree_of_folds`, `buildTree_of_stuck`: what is built in the two cases.
* `buildTree_eq_tree_iff`, `buildTree_eq_error_iff`: when a tree is built, and when not.
* `buildTree_inverts_postorder`: the fold inverts listing, and finds the first fault.
-/

namespace BoolQuery

/-- The number of operands that an operator takes. -/
def Operator.arity : Operator → Nat
  | .not => 1
  | .and | .or => 2

namespace Phrase

/-- The operands at the root, left to right. -/
def children : Phrase → List Phrase
  | .term _ _ => []
  | .not _ child => [child]
  | .and _ left right => [left, right]
  | .or _ left right => [left, right]

/-- The root token comes behind the listings of its operands. -/
theorem postorder_eq (p : Phrase) :
    p.postorder = p.children.flatMap postorder ++ [p.root] := by
  cases p <;> simp [postorder, children, root]

/-- A listing ends in the root token. -/
theorem getLast?_postorder (p : Phrase) : p.postorder.getLast? = some p.root := by
  rw [postorder_eq, List.getLast?_concat]

/-- A tree has one level more than its deepest operand. -/
theorem depth_le_of_children {p : Phrase} {n : Nat} (h : ∀ c ∈ p.children, c.node.depth ≤ n) :
    p.node.depth ≤ n + 1 := by
  cases p with
  | term t position => exact Nat.le_add_left 1 n
  | not position child => exact Nat.succ_le_succ (h child List.mem_cons_self)
  | and position left right | or position left right =>
      have hleft := h left (by simp [children])
      have hright := h right (by simp [children])
      exact Nat.succ_le_succ (Nat.max_le.mpr ⟨hleft, hright⟩)

/-- **A root token on top of its operands** is folded into the tree, unless this is too deep. -/
theorem step_root (p : Phrase) (stack : List Subtree) :
    Subtree.step ((p.children.map subtree).reverse ++ stack) p.root =
      if p.node.depth ≤ maxDepth then .ok (p.subtree :: stack)
      else .error { fault := .tooDeep, position := p.root.position } := by
  cases p with
  | term t position => exact (if_pos (by decide : 1 ≤ maxDepth)).symm
  | not position child => rfl
  | and position left right | or position left right => rfl

end Phrase

/-- Every tree has a phrase for each row of tokens that has the kinds of its listing. -/
theorem Node.exists_phrase {n : Node} {ts : List Token} (h : ts.map Token.kind = n.postorder) :
    ∃ p : Phrase, p.node = n ∧ p.postorder = ts := by
  induction n generalizing ts with
  | term t =>
      obtain ⟨⟨_, position⟩, rfl, rfl⟩ := List.map_eq_singleton_iff.mp h
      exact ⟨.term t position, rfl, rfl⟩
  | not child ih =>
      obtain ⟨front, last, rfl, hfront, hlast⟩ := List.map_eq_append_iff.mp h
      obtain ⟨⟨_, position⟩, rfl, rfl⟩ := List.map_eq_singleton_iff.mp hlast
      obtain ⟨p, rfl, rfl⟩ := ih hfront
      exact ⟨.not position p, rfl, rfl⟩
  | and left right ihl ihr | or left right ihl ihr =>
      obtain ⟨front, last, rfl, hfront, hlast⟩ := List.map_eq_append_iff.mp h
      obtain ⟨⟨_, position⟩, rfl, rfl⟩ := List.map_eq_singleton_iff.mp hlast
      obtain ⟨lts, rts, rfl, hleft, hright⟩ := List.map_eq_append_iff.mp hfront
      obtain ⟨p, rfl, rfl⟩ := ihl hleft
      obtain ⟨q, rfl, rfl⟩ := ihr hright
      first
        | exact ⟨.and position p q, rfl, rfl⟩
        | exact ⟨.or position p q, rfl, rfl⟩

/-! ### Rows of trees -/

/-- The tokens are the listings of the phrases, left to right, and no phrase is too deep. -/
structure Folds (ts : List Token) (ps : List Phrase) : Prop where
  /-- The tokens are the listings, one after the other. -/
  listing : ts = ps.flatMap Phrase.postorder
  /-- The phrases have no more levels than a tree may have. -/
  depth_le : ∀ p ∈ ps, p.node.depth ≤ maxDepth

/-- The token `t` does not fold behind the phrases `ps`, for the reason given. -/
inductive Stuck (ps : List Phrase) (t : Token) : (fault : ParseFault) → Prop
  | openGroup : t.kind = .openGroup → Stuck ps t .missingClose
  | closeGroup : t.kind = .closeGroup → Stuck ps t .missingOpen
  | operands {op : Operator} :
      t.kind = .operator op → ps.length < op.arity → Stuck ps t .missingOperand
  | tooDeep {front : List Phrase} {p : Phrase} :
      ps = front ++ p.children → p.root = t → p.node.depth = maxDepth + 1 → Stuck ps t .tooDeep

variable {ts : List Token} {ps : List Phrase} {t : Token} {fault : ParseFault}

/-- A token is a parenthesis, or an operator that lacks operands, or the root of a phrase over
the last ones of the row. -/
theorem exists_phrase_root (ps : List Phrase) (t : Token) :
    (t.kind = .openGroup ∨ t.kind = .closeGroup) ∨
      (∃ op, t.kind = .operator op ∧ ps.length < op.arity) ∨
      ∃ (front : List Phrase) (p : Phrase), ps = front ++ p.children ∧ p.root = t := by
  obtain ⟨kind, position⟩ := t
  cases kind with
  | openGroup => exact .inl (.inl rfl)
  | closeGroup => exact .inl (.inr rfl)
  | term term => exact .inr (.inr ⟨ps, .term term position, (List.append_nil ps).symm, rfl⟩)
  | operator op =>
      refine .inr ?_
      by_cases hlength : ps.length < op.arity
      · exact .inl ⟨op, rfl, hlength⟩
      have harity := Nat.not_lt.mp hlength
      refine .inr ?_
      rcases ps.eq_nil_or_concat with rfl | ⟨front, right, rfl⟩
      · cases op <;> simp [Operator.arity] at harity
      cases op with
      | not => exact ⟨front, .not position right, List.concat_eq_append, rfl⟩
      | and | or =>
          rcases front.eq_nil_or_concat with rfl | ⟨front, left, rfl⟩
          · simp [Operator.arity] at harity
          first
            | exact ⟨front, .and position left right, by simp [Phrase.children], rfl⟩
            | exact ⟨front, .or position left right, by simp [Phrase.children], rfl⟩

namespace Folds

theorem nil : Folds [] [] :=
  ⟨rfl, by simp⟩

/-- A root token makes one tree of its operands. -/
theorem root {front : List Phrase} {p : Phrase} (h : Folds ts (front ++ p.children))
    (hdepth : p.node.depth ≤ maxDepth) : Folds (ts ++ [p.root]) (front ++ [p]) := by
  refine ⟨?_, fun q hq => ?_⟩
  · rw [h.listing]
    simp [p.postorder_eq]
  · rcases List.mem_append.mp hq with hfront | hp
    · exact h.depth_le q (List.mem_append_left _ hfront)
    · rwa [List.mem_singleton.mp hp]

/-- **The next token extends the row of trees or is stuck.** -/
theorem extend_or_stuck (h : Folds ts ps) (t : Token) :
    (∃ ps', Folds (ts ++ [t]) ps') ∨ ∃ fault, Stuck ps t fault := by
  rcases exists_phrase_root ps t with (hopen | hclose) | ⟨op, hop, hfew⟩ | ⟨front, p, rfl, rfl⟩
  · exact .inr ⟨_, .openGroup hopen⟩
  · exact .inr ⟨_, .closeGroup hclose⟩
  · exact .inr ⟨_, .operands hop hfew⟩
  · by_cases hdepth : p.node.depth ≤ maxDepth
    · exact .inl ⟨_, h.root hdepth⟩
    · have hle : p.node.depth ≤ maxDepth + 1 := Phrase.depth_le_of_children fun c hc =>
        h.depth_le c (List.mem_append_right _ hc)
      exact .inr ⟨_, .tooDeep rfl rfl (by omega)⟩

/-- **The stack of the fold** is the row of trees, the last one on top. -/
theorem foldlM_eq (h : Folds ts ps) :
    ts.foldlM Subtree.step [] = .ok (ps.map Phrase.subtree).reverse := by
  suffices hrun : ∀ stack, ts.foldlM Subtree.step stack
      = .ok ((ps.map Phrase.subtree).reverse ++ stack) by
    simpa using hrun []
  obtain ⟨rfl, hdepth⟩ := h
  induction ps with
  | nil => exact fun stack => rfl
  | cons p ps ih =>
      obtain ⟨hp, hps⟩ := List.forall_mem_cons.mp hdepth
      intro stack
      rw [List.flatMap_cons, foldlM_append_of_ok (Phrase.fold_postorder hp stack), ih hps]
      simp

end Folds

/-- **A row of tokens is a row of listings up to its first token that is stuck.** Induction from
the front: as long as no token is stuck, each one extends the row of trees. -/
theorem exists_folds_or_stuck (ts : List Token) :
    (∃ ps, Folds ts ps) ∨ ∃ pre t post ps fault,
      ts = pre ++ t :: post ∧ Folds pre ps ∧ Stuck ps t fault := by
  induction ts using List.reverseRecOn with
  | nil => exact .inl ⟨[], .nil⟩
  | append_singleton ts t ih =>
      rcases ih with ⟨ps, hps⟩ | ⟨pre, t', post, ps, fault, rfl, hpre, hstuck⟩
      · rcases hps.extend_or_stuck t with hfolds | ⟨fault, hstuck⟩
        · exact .inl hfolds
        · exact .inr ⟨ts, t, [], ps, fault, rfl, hps, hstuck⟩
      · exact .inr ⟨pre, t', post ++ [t], ps, fault, by simp, hpre, hstuck⟩

/-! ### What is built -/

/-- A stuck token is refused by the fold. -/
theorem Stuck.step_eq (h : Stuck ps t fault) :
    Subtree.step (ps.map Phrase.subtree).reverse t
      = .error { fault, position := t.position } := by
  cases h with
  | openGroup hkind => simp [Subtree.step, hkind]
  | closeGroup hkind => simp [Subtree.step, hkind]
  | @operands op hkind hfew =>
      obtain ⟨_, position⟩ := t
      obtain rfl := hkind
      cases op with
      | not =>
          obtain rfl := List.length_eq_zero_iff.mp (Nat.lt_one_iff.mp hfew)
          rfl
      | and | or =>
          match ps, hfew with
          | [], _ => rfl
          | [_], _ => rfl
          | _ :: _ :: _, hfew =>
              simp only [List.length_cons, Operator.arity] at hfew
              omega
  | @tooDeep front p hps hroot hdepth =>
      obtain rfl := hps
      obtain rfl := hroot
      rw [List.map_append, List.reverse_append, Phrase.step_root, if_neg (by omega)]

/-- The fold over a token that is stuck, and whatever stands behind it. -/
theorem foldlM_of_stuck {pre post : List Token} (hpre : Folds pre ps) (h : Stuck ps t fault) :
    (pre ++ t :: post).foldlM Subtree.step []
      = .error { fault, position := t.position } := by
  rw [foldlM_append_of_ok hpre.foldlM_eq, foldlM_cons_of_error h.step_eq]

/-- **A token that is stuck** gives the error. -/
theorem buildTree_of_stuck {pre post : List Token} (hpre : Folds pre ps)
    (h : Stuck ps t fault) :
    buildTree (pre ++ t :: post) = .error { fault, position := t.position } := by
  rw [buildTree, foldlM_of_stuck hpre h]
  rfl

/-- One tree at most may be left. What is missing between two trees is reported at the end of the
second one. -/
theorem Subtree.finish_reverse (row : List Subtree) :
    Subtree.finish row.reverse = match row with
      | [] => .ok .empty
      | [root] => .ok ⟨some root.node⟩
      | _ :: extra :: _ => .error { fault := .missingOperator, position := extra.position } := by
  match row with
  | [] => rfl
  | [_] => rfl
  | _ :: _ :: _ => rw [Subtree.finish, List.reverse_reverse]

/-- **A row of listings** is built into what its row of trees makes. -/
theorem buildTree_of_folds (h : Folds ts ps) :
    buildTree ts = Subtree.finish (ps.map Phrase.subtree).reverse := by
  rw [buildTree, h.foldlM_eq]
  rfl

/-- A row of listings does not go on behind it with a token that is stuck. -/
theorem Stuck.not_folds (h : Stuck ps t fault) (hfolds : Folds ts ps) :
    ¬ ∃ ps', Folds (ts ++ [t]) ps' := by
  rintro ⟨ps', hps'⟩
  have herror : (ts ++ [t]).foldlM Subtree.step []
      = .error { fault, position := t.position } := foldlM_of_stuck hfolds h
  rw [hps'.foldlM_eq] at herror
  cases herror

/-- The empty query is built of no tokens only. -/
theorem buildTree_eq_empty_iff : buildTree ts = .ok .empty ↔ ts = [] := by
  constructor
  · intro hok
    rcases exists_folds_or_stuck ts with ⟨ps, hps⟩ | ⟨pre, t, post, ps, fault, rfl, hpre, hstuck⟩
    · rw [buildTree_of_folds hps, Subtree.finish_reverse] at hok
      match ps, hps, hok with
      | [], hps, _ => exact hps.listing
      | [p], _, hok => cases hok
    · rw [buildTree_of_stuck hpre hstuck] at hok
      cases hok
  · rintro rfl
    rfl

/-- **A tree is built of its listing**, and of nothing else. -/
theorem buildTree_eq_tree_iff {n : Node} : buildTree ts = .ok ⟨some n⟩ ↔
    ts.map Token.kind = n.postorder ∧ n.depth ≤ maxDepth := by
  constructor
  · intro hok
    rcases exists_folds_or_stuck ts with ⟨ps, hps⟩ | ⟨pre, t, post, ps, fault, rfl, hpre, hstuck⟩
    · rw [buildTree_of_folds hps, Subtree.finish_reverse] at hok
      match ps, hps, hok with
      | [p], hps, rfl =>
          rw [hps.listing, List.flatMap_singleton]
          exact ⟨p.map_kind_postorder, hps.depth_le p List.mem_cons_self⟩
    · rw [buildTree_of_stuck hpre hstuck] at hok
      cases hok
  · rintro ⟨hkinds, hdepth⟩
    obtain ⟨p, rfl, rfl⟩ := Node.exists_phrase hkinds
    exact Phrase.buildTree_postorder hdepth

/-- **An error is the first fault**: a token that is stuck behind a row of listings, or, when no
token is stuck, a second tree. -/
theorem buildTree_eq_error_iff {e : ParseError} : buildTree ts = .error e ↔
    (∃ pre t post ps fault, ts = pre ++ t :: post ∧ Folds pre ps ∧
      (¬ ∃ ps', Folds (pre ++ [t]) ps') ∧ Stuck ps t fault ∧
      e = { fault, position := t.position }) ∨
    ∃ p q more last, Folds ts (p :: q :: more) ∧ q.postorder.getLast? = some last ∧
      e = { fault := .missingOperator, position := last.position } := by
  constructor
  · intro herror
    rcases exists_folds_or_stuck ts with ⟨ps, hps⟩ | ⟨pre, t, post, ps, fault, rfl, hpre, hstuck⟩
    · rw [buildTree_of_folds hps, Subtree.finish_reverse] at herror
      match ps, hps, herror with
      | p :: q :: more, hps, herror =>
          exact .inr ⟨p, q, more, q.root, hps, q.getLast?_postorder, (Except.error.inj herror).symm⟩
    · rw [buildTree_of_stuck hpre hstuck] at herror
      exact .inl ⟨pre, t, post, ps, fault, rfl, hpre, hstuck.not_folds hpre, hstuck,
        (Except.error.inj herror).symm⟩
  · rintro (⟨pre, t, post, ps, fault, rfl, hpre, -, hstuck, rfl⟩ |
      ⟨p, q, more, last, hps, hlast, rfl⟩)
    · exact buildTree_of_stuck hpre hstuck
    · rw [q.getLast?_postorder] at hlast
      rw [buildTree_of_folds hps, Subtree.finish_reverse, ← Option.some.inj hlast]
      rfl

/-- **The fold inverts listing.** It gives the empty query of no tokens, and a tree of the tokens
that have the kinds of its listing, if it has no more levels than a tree may have. Otherwise it
reports the first token that is stuck: the tokens before it are a row of listings, and those up to
it are not. If no token is stuck, more than one tree is left, and what is missing is found at the
end of the second one. -/
theorem buildTree_inverts_postorder (ts : List Token) :
    (buildTree ts = .ok .empty ↔ ts = []) ∧
    (∀ n, buildTree ts = .ok ⟨some n⟩ ↔
      ts.map Token.kind = n.postorder ∧ n.depth ≤ maxDepth) ∧
    ∀ e, buildTree ts = .error e ↔
      (∃ pre t post ps fault, ts = pre ++ t :: post ∧ Folds pre ps ∧
        (¬ ∃ ps', Folds (pre ++ [t]) ps') ∧ Stuck ps t fault ∧
        e = { fault, position := t.position }) ∨
      ∃ p q more last, Folds ts (p :: q :: more) ∧ q.postorder.getLast? = some last ∧
        e = { fault := .missingOperator, position := last.position } :=
  ⟨buildTree_eq_empty_iff, fun _ => buildTree_eq_tree_iff, fun _ => buildTree_eq_error_iff⟩

/-- The operator takes the second term, and three trees are left. What is missing is reported at
the end of the second one. -/
example : buildTree [⟨.term { value := ['a'] }, 0⟩, ⟨.term { value := ['b'] }, 2⟩,
    ⟨.operator .not, 4⟩, ⟨.term { value := ['c'] }, 8⟩]
      = .error { fault := .missingOperator, position := 4 } := by
  decide

end BoolQuery
