import BoolQuery.Query.Basic
import BoolQuery.Token.Basic
import Mathlib.Tactic.Common

/-!
# The Precedence Grammar

What a row of tokens means is fixed by a grammar of three levels, one for each operator:

* `Or ::= Or OR And | And`
* `And ::= And AND Unary | Unary`
* `Unary ::= NOT Unary | Term | OpenGroup Or CloseGroup`

A derivation denotes a **phrase**: a query tree that keeps, at each of its nodes, the place of
the token it came from. Parentheses leave no trace in the phrase.

## Main definitions

* `Phrase`: a tree with places; `Phrase.node`, the tree without them, and `Phrase.postorder`,
  its tokens, operands before their operator.
* `Node.postorder`: the kinds of the nodes of a tree in the same order.
* `Derives level ts p`: the tokens `ts` make up the phrase `p` at a level of the grammar.

## Main results

* `Phrase.eq_of_postorder_eq`: a phrase is determined by its postorder listing.
* `Derives.terms`: the leaves of a phrase are the terms among the tokens.
* `Derives.postorder_perm`: a phrase consists of the tokens it is derived from, without the
  parentheses.
-/

namespace BoolQuery

/-! ### Phrases -/

/-- A query tree that keeps the place of the token of each of its nodes. -/
inductive Phrase where
  /-- A leaf. -/
  | term (t : Term) (position : Nat)
  /-- A negation. -/
  | not (position : Nat) (child : Phrase)
  /-- A conjunction. -/
  | and (position : Nat) (left right : Phrase)
  /-- A disjunction. -/
  | or (position : Nat) (left right : Phrase)

namespace Phrase

/-- The tree without the places. -/
def node : Phrase → Node
  | .term t _ => .term t
  | .not _ child => .not child.node
  | .and _ left right => .and left.node right.node
  | .or _ left right => .or left.node right.node

/-- The token at the root. -/
def root : Phrase → Token
  | .term t position => ⟨.term t, position⟩
  | .not position _ => ⟨.operator .not, position⟩
  | .and position _ _ => ⟨.operator .and, position⟩
  | .or position _ _ => ⟨.operator .or, position⟩

/-- The tokens of the phrase, operands before their operator. -/
def postorder : Phrase → List Token
  | .term t position => [⟨.term t, position⟩]
  | .not position child => child.postorder ++ [⟨.operator .not, position⟩]
  | .and position left right =>
    left.postorder ++ right.postorder ++ [⟨.operator .and, position⟩]
  | .or position left right =>
    left.postorder ++ right.postorder ++ [⟨.operator .or, position⟩]

end Phrase

/-- The kinds of the nodes of a tree, operands before their operator. -/
def Node.postorder : Node → List TokenKind
  | .term t => [.term t]
  | .not child => child.postorder ++ [.operator .not]
  | .and left right => left.postorder ++ right.postorder ++ [.operator .and]
  | .or left right => left.postorder ++ right.postorder ++ [.operator .or]

namespace Phrase

/-- The listing of a phrase is the listing of its tree, with places. -/
theorem map_kind_postorder (p : Phrase) : p.postorder.map Token.kind = p.node.postorder := by
  induction p with
  | term t position => rfl
  | not position child ih => simp [postorder, node, Node.postorder, ih]
  | and position left right ihl ihr => simp [postorder, node, Node.postorder, ihl, ihr]
  | or position left right ihl ihr => simp [postorder, node, Node.postorder, ihl, ihr]

/-- Read from its end, a listing is a prefix code: the root token tells how many operands
follow. Two listings that begin alike from the end are therefore the same listing. -/
theorem eq_of_reverse_append {p q : Phrase} {a b : List Token}
    (h : p.postorder.reverse ++ a = q.postorder.reverse ++ b) : p = q ∧ a = b := by
  induction p generalizing q a b with
  | term t position =>
      cases q <;>
        simp only [postorder, List.reverse_append, List.reverse_singleton, List.cons_append,
          List.nil_append, List.cons.injEq, Token.mk.injEq, TokenKind.term.injEq,
          reduceCtorEq, false_and] at h
      obtain ⟨⟨rfl, rfl⟩, rfl⟩ := h
      exact ⟨rfl, rfl⟩
  | not position child ih =>
      cases q <;>
        simp only [postorder, List.reverse_append, List.reverse_singleton, List.cons_append,
          List.nil_append, List.cons.injEq, Token.mk.injEq, TokenKind.operator.injEq,
          reduceCtorEq, false_and, true_and] at h
      obtain ⟨rfl, hrest⟩ := h
      obtain ⟨rfl, rfl⟩ := ih hrest
      exact ⟨rfl, rfl⟩
  | and position left right ihl ihr | or position left right ihl ihr =>
      cases q <;>
        simp only [postorder, List.reverse_append, List.reverse_singleton, List.cons_append,
          List.nil_append, List.append_assoc, List.cons.injEq, Token.mk.injEq,
          TokenKind.operator.injEq, reduceCtorEq, false_and, true_and] at h
      obtain ⟨rfl, hrest⟩ := h
      obtain ⟨rfl, hleft⟩ := ihr hrest
      obtain ⟨rfl, rfl⟩ := ihl hleft
      exact ⟨rfl, rfl⟩

/-- **A phrase is determined by its listing.** -/
theorem eq_of_postorder_eq {p q : Phrase} (h : p.postorder = q.postorder) : p = q :=
  (eq_of_reverse_append (a := []) (b := []) (by rw [h])).1

/-- The terms of the tree are the terms of the listing. -/
theorem exists_mem_postorder_of_mem_terms {p : Phrase} {t : Term} (h : t ∈ p.node.terms) :
    ∃ position, ⟨.term t, position⟩ ∈ p.postorder := by
  induction p with
  | term t' position =>
      obtain rfl : t = t' := by simpa [node, Node.terms] using h
      exact ⟨position, by simp [postorder]⟩
  | not position child ih =>
      obtain ⟨at_, hmem⟩ := ih h
      exact ⟨at_, List.mem_append_left _ hmem⟩
  | and position left right ihl ihr | or position left right ihl ihr =>
      rcases List.mem_append.mp h with hl | hr
      · obtain ⟨at_, hmem⟩ := ihl hl
        exact ⟨at_, List.mem_append_left _ (List.mem_append_left _ hmem)⟩
      · obtain ⟨at_, hmem⟩ := ihr hr
        exact ⟨at_, List.mem_append_left _ (List.mem_append_right _ hmem)⟩

end Phrase

/-! ### Derivations -/

/-- The levels of the grammar, from the one that binds loosest. -/
inductive Level where
  /-- Disjunctions and everything below. -/
  | or
  /-- Conjunctions and everything below. -/
  | and
  /-- Negations, terms and groups. -/
  | unary
deriving DecidableEq, Repr

/-- The grammar: the tokens `ts` make up the phrase `p` at a level. -/
inductive Derives : Level → (ts : List Token) → (p : Phrase) → Prop
  | or {left right : List Token} {p q : Phrase} (position : Nat) :
      Derives .or left p → Derives .and right q →
      Derives .or (left ++ ⟨.operator .or, position⟩ :: right) (.or position p q)
  | ofAnd {ts : List Token} {p : Phrase} : Derives .and ts p → Derives .or ts p
  | and {left right : List Token} {p q : Phrase} (position : Nat) :
      Derives .and left p → Derives .unary right q →
      Derives .and (left ++ ⟨.operator .and, position⟩ :: right) (.and position p q)
  | ofUnary {ts : List Token} {p : Phrase} : Derives .unary ts p → Derives .and ts p
  | not {ts : List Token} {p : Phrase} (position : Nat) :
      Derives .unary ts p → Derives .unary (⟨.operator .not, position⟩ :: ts) (.not position p)
  | term (t : Term) (position : Nat) : Derives .unary [⟨.term t, position⟩] (.term t position)
  | group {ts : List Token} {p : Phrase} (opening closing : Nat) :
      Derives .or ts p →
      Derives .unary (⟨.openGroup, opening⟩ :: (ts ++ [⟨.closeGroup, closing⟩])) p

/-- True for the tokens that show in a phrase: all but the parentheses. -/
def TokenKind.isNode : TokenKind → Bool
  | .term _ | .operator _ => true
  | .openGroup | .closeGroup => false

/-- **A phrase consists of the tokens it is derived from, without the parentheses.** -/
theorem Derives.postorder_perm {level : Level} {ts : List Token} {p : Phrase}
    (h : Derives level ts p) : p.postorder.Perm (ts.filter (·.kind.isNode)) := by
  induction h with
  | or position _ _ ihl ihr | and position _ _ ihl ihr =>
      simp only [Phrase.postorder, List.filter_append, TokenKind.isNode, List.filter_cons_of_pos,
        List.append_assoc]
      exact ihl.append ((List.perm_append_singleton _ _).trans (ihr.cons _))
  | ofAnd _ ih => exact ih
  | ofUnary _ ih => exact ih
  | not position _ ih =>
      simp only [Phrase.postorder, TokenKind.isNode, List.filter_cons_of_pos]
      exact (List.perm_append_singleton _ _).trans (ih.cons _)
  | term t position => exact .refl _
  | group opening closing _ ih => simpa [TokenKind.isNode] using ih

/-- The term that a token is. -/
def TokenKind.term? : TokenKind → Option Term
  | .term t => some t
  | .operator _ | .openGroup | .closeGroup => none

/-- **The leaves of a phrase are the terms among the tokens**, in their order. -/
theorem Derives.terms {level : Level} {ts : List Token} {p : Phrase} (h : Derives level ts p) :
    p.node.terms = ts.filterMap (·.kind.term?) := by
  induction h with
  | or position _ _ ihl ihr | and position _ _ ihl ihr =>
      simp [Phrase.node, Node.terms, TokenKind.term?, ihl, ihr]
  | ofAnd _ ih => exact ih
  | ofUnary _ ih => exact ih
  | not position _ ih => simpa [Phrase.node, Node.terms, TokenKind.term?] using ih
  | term t position => rfl
  | group opening closing _ ih => simpa [TokenKind.term?] using ih

/-- No phrase is derived from no tokens. -/
theorem Derives.ne_nil {level : Level} {ts : List Token} {p : Phrase}
    (h : Derives level ts p) : ts ≠ [] := by
  induction h with
  | or | and => simp
  | ofAnd _ ih => exact ih
  | ofUnary _ ih => exact ih
  | not | term | group => simp

end BoolQuery
