import BoolQuery.Balance
import BoolQuery.Postfix
import BoolQuery.Proofs.Alike
import BoolQuery.Query.Build

/-!
# What the Passes Look At

The bracket check looks at characters, and not at their places. Of a token, the postfix pass and
the fold look only at its class: whether it is a term, an operator, and which one, or a
parenthesis. Terms and places are handed on, to the tree and to errors. So two checks of the same
text in different places end alike, and rows of tokens that are related one by one give related
trees, or fail alike at related tokens.

## Main definitions

* `Balance.Like`: states of the bracket check with the same brackets in related places.
* `TokenKind.Like`, `Token.Like`, `Node.Like`: tokens and trees that differ only in what is handed
  on, for terms related by `L` and errors related by `E`.

## Main results

* `Balance.run_like`, `checkBalance_like`: the bracket check keeps the relation.
* `toPostfix_like`: so does the postfix pass.
* `buildTree_like`: so does the fold.
* `toPostfix_buildTree_like`: the last two together.
-/

namespace BoolQuery

variable {E : ParseError → ParseError → Prop} {L : Term → Term → Prop}

/-- The kinds are of the same class, and terms are related by `L`. -/
inductive TokenKind.Like (L : Term → Term → Prop) : TokenKind → TokenKind → Prop
  | term {t t' : Term} : L t t' → Like L (.term t) (.term t')
  | operator (op : Operator) : Like L (.operator op) (.operator op)
  | openGroup : Like L .openGroup .openGroup
  | closeGroup : Like L .closeGroup .closeGroup

/-- The kinds of the tokens are alike, and so are errors at their places. -/
structure Token.Like (E : ParseError → ParseError → Prop) (L : Term → Term → Prop)
    (t t' : Token) : Prop where
  /-- The kinds are alike. -/
  kind : t.kind.Like L t'.kind
  /-- Errors at the two tokens are related. -/
  error : ∀ fault, E { fault, position := t.position } { fault, position := t'.position }

/-- The trees have the same shape, and the terms at corresponding leaves are related by `L`. -/
inductive Node.Like (L : Term → Term → Prop) : Node → Node → Prop
  | term {t t' : Term} : L t t' → Like L (.term t) (.term t')
  | not {child child' : Node} : Like L child child' → Like L (.not child) (.not child')
  | and {left left' right right' : Node} :
      Like L left left' → Like L right right' → Like L (.and left right) (.and left' right')
  | or {left left' right right' : Node} :
      Like L left left' → Like L right right' → Like L (.or left right) (.or left' right')

/-! ### The bracket check -/

/-- A fault that the bracket check reports. -/
def ParseFault.OfBracket (fault : ParseFault) : Prop :=
  fault = .missingOpen ∨ fault = .missingClose

/-- The errors of the bracket check at the character `c`, in two places. -/
def LikeAt (E : ParseError → ParseError → Prop) (c : Char) (position position' : Nat) : Prop :=
  ∀ fault : ParseFault, fault.OfBracket →
    E { fault, position, character := some c }
      { fault, position := position', character := some c }

/-- The brackets are the same, and so are errors at their places. -/
structure OpenBracket.Like (E : ParseError → ParseError → Prop) (o o' : OpenBracket) : Prop where
  /-- The classes. -/
  kind : o.kind = o'.kind
  /-- The characters. -/
  character : o.character = o'.character
  /-- Errors at the two brackets. -/
  error : LikeAt E o.character o.position o'.position

namespace Balance

variable {d : Dialect} {b b' : Balance} {c : Char}

/-- The same brackets wait, in related places. -/
structure Like (E : ParseError → ParseError → Prop) (b b' : Balance) : Prop where
  /-- Whether the check is in a quoted part. -/
  inQuote : b.inQuote = b'.inQuote
  /-- The brackets that wait. -/
  pending : List.Forall₂ (OpenBracket.Like E) b.pending b'.pending

/-- The states `r` and `r'` come from `b` and `b'` by passing over `size` bytes. -/
structure Moved (E : ParseError → ParseError → Prop) (b b' : Balance) (size : Nat)
    (r r' : Balance) : Prop where
  /-- They are alike. -/
  like : r.Like E r'
  /-- The place of the one. -/
  left : r.offset = b.offset + size
  /-- The place of the other. -/
  right : r'.offset = b'.offset + size

/-- The same bracket is closed, or missed. -/
theorem close_like (h : b.Like E b') (hc : LikeAt E c b.offset b'.offset) (kind : BracketKind) :
    Alike E (Moved E b b' 0) (b.close kind c) (b'.close kind c) := by
  have hpending := h.pending
  rw [Balance.close, Balance.close]
  generalize b.pending = pending at hpending
  generalize b'.pending = pending' at hpending
  cases hpending with
  | nil => exact .error (hc _ (.inl rfl))
  | cons htop houter =>
      simp only [htop.kind]
      split
      · exact .ok ⟨⟨h.inQuote, houter⟩, rfl, rfl⟩
      · exact .error (hc _ (.inl rfl))

/-- The same bracket waits, is closed, or missed. -/
theorem bracket_like (h : b.Like E b') (hc : LikeAt E c b.offset b'.offset) :
    Alike E (Moved E b b' 0) (b.bracket d c) (b'.bracket d c) := by
  rw [Balance.bracket, Balance.bracket]
  cases d.bracket? c with
  | none => exact .ok ⟨h, rfl, rfl⟩
  | some bracket =>
      obtain ⟨kind, side⟩ := bracket
      cases side with
      | opening => exact .ok ⟨⟨h.inQuote, .cons ⟨rfl, rfl, hc⟩ h.pending⟩, rfl, rfl⟩
      | closing => exact close_like h hc kind

/-- **One character.** -/
theorem step_like (h : b.Like E b') (hc : LikeAt E c b.offset b'.offset) :
    Alike E (Moved E b b' c.utf8Size) (step d b c) (step d b' c) := by
  rw [Balance.step, Balance.step, ← h.inQuote]
  split
  · exact .ok ⟨⟨rfl, h.pending⟩, rfl, rfl⟩
  split
  · exact .ok ⟨⟨h.inQuote, h.pending⟩, rfl, rfl⟩
  · exact (bracket_like h hc).map fun r r' hr => ⟨⟨hr.like.inQuote, hr.like.pending⟩,
      congrArg (· + c.utf8Size) hr.left, congrArg (· + c.utf8Size) hr.right⟩

/-- **The bracket check looks only at characters.** -/
theorem run_like {t : Text} (h : b.Like E b')
    (ht : ∀ front c after, t = front ++ c :: after →
      LikeAt E c (b.offset + Text.byteSize front) (b'.offset + Text.byteSize front)) :
    Alike E (Moved E b b' (Text.byteSize t)) (t.foldlM (step d) b) (t.foldlM (step d) b') := by
  induction t generalizing b b' with
  | nil => exact .ok ⟨h, rfl, rfl⟩
  | cons c t ih =>
      rw [List.foldlM_cons, List.foldlM_cons]
      refine (step_like h (ht [] c t rfl)).bind fun r r' hr => ?_
      refine (ih hr.like fun front k after heq => ?_).mono (fun _ _ he => he) fun s s' hs => ?_
      · rw [hr.left, hr.right, Nat.add_assoc, Nat.add_assoc, ← Text.byteSize_cons]
        exact ht (c :: front) k after (by rw [heq]; rfl)
      · refine ⟨hs.like, ?_, ?_⟩
        · rw [hs.left, hr.left, Text.byteSize_cons, Nat.add_assoc]
        · rw [hs.right, hr.right, Text.byteSize_cons, Nat.add_assoc]

/-- The same bracket is left open, or none. -/
theorem finish_like (h : b.Like E b') : Alike E (fun _ _ => True) b.finish b'.finish := by
  have hpending := h.pending
  rw [Balance.finish, Balance.finish]
  generalize b.pending = pending at hpending
  generalize b'.pending = pending' at hpending
  cases hpending with
  | nil => exact .ok trivial
  | cons htop _ =>
      simp only [← htop.character]
      exact .error (htop.error _ (.inr rfl))

end Balance

/-- What holds of errors at all characters of a query holds of the error of its bracket check. -/
theorem checkBalance_like {d : Dialect} {q : Text}
    (hq : ∀ front c after, q = front ++ c :: after →
      LikeAt E c (Text.byteSize front) (Text.byteSize front)) :
    Alike E (fun _ _ => True) (checkBalance d q) (checkBalance d q) := by
  have hstart : Balance.Like E {} {} := ⟨rfl, .nil⟩
  refine (Balance.run_like hstart fun front c after heq => ?_).bind fun b b' hb =>
    Balance.finish_like hb.like
  simpa using hq front c after heq

/-! ### The postfix pass -/

namespace Postfix

variable {waiting waiting' output output' : List Token}

/-- The two states have tokens that are related one by one. -/
structure Like (E : ParseError → ParseError → Prop) (L : Term → Term → Prop)
    (s s' : Postfix) : Prop where
  /-- The outputs. -/
  output : List.Forall₂ (Token.Like E L) s.output s'.output
  /-- The waiting tokens. -/
  waiting : List.Forall₂ (Token.Like E L) s.waiting s'.waiting
  /-- Whether an operand must come next. -/
  wantsOperand : s.wantsOperand = s'.wantsOperand

/-- The same operators are released. -/
theorem release_like (incoming : Operator) (hw : List.Forall₂ (Token.Like E L) waiting waiting')
    (ho : List.Forall₂ (Token.Like E L) output output') :
    List.Forall₂ (Token.Like E L) (release incoming waiting output).1
        (release incoming waiting' output').1 ∧
      List.Forall₂ (Token.Like E L) (release incoming waiting output).2
        (release incoming waiting' output').2 := by
  induction hw generalizing output output' with
  | nil => exact ⟨.nil, ho⟩
  | @cons top top' waiting waiting' htop hw ih =>
      obtain ⟨kind, position⟩ := top
      obtain ⟨kind', position'⟩ := top'
      cases htop.kind with
      | operator op =>
          simp only [release]
          split
          · exact ih (.cons htop ho)
          · exact ⟨.cons htop hw, ho⟩
      | term | openGroup | closeGroup => exact ⟨.cons htop hw, ho⟩

/-- A group is closed in both states or in neither. -/
theorem closeGroup?_like (hw : List.Forall₂ (Token.Like E L) waiting waiting')
    (ho : List.Forall₂ (Token.Like E L) output output') :
    Option.Rel (fun r r' => List.Forall₂ (Token.Like E L) r.1 r'.1 ∧
        List.Forall₂ (Token.Like E L) r.2 r'.2)
      (closeGroup? waiting output) (closeGroup? waiting' output') := by
  induction hw generalizing output output' with
  | nil => exact .none
  | @cons top top' waiting waiting' htop hw ih =>
      obtain ⟨kind, position⟩ := top
      obtain ⟨kind', position'⟩ := top'
      cases htop.kind with
      | openGroup => exact .some ⟨hw, ho⟩
      | term | operator | closeGroup => exact ih (.cons htop ho)

/-- What waits at the end goes to the output, or an open group is found. -/
theorem drain_like (hw : List.Forall₂ (Token.Like E L) waiting waiting')
    (ho : List.Forall₂ (Token.Like E L) output output') :
    Alike E (List.Forall₂ (Token.Like E L)) (drain waiting output) (drain waiting' output') := by
  induction hw generalizing output output' with
  | nil => exact .ok (List.forall₂_reverse_iff.mpr ho)
  | @cons top top' waiting waiting' htop hw ih =>
      obtain ⟨kind, position⟩ := top
      obtain ⟨kind', position'⟩ := top'
      cases htop.kind with
      | openGroup => exact .error (htop.error _)
      | term | operator | closeGroup => exact ih (.cons htop ho)

/-- **One token.** -/
theorem step_like {s s' : Postfix} {t t' : Token} (h : s.Like E L s') (ht : t.Like E L t') :
    Alike E (Like E L) (s.step t) (s'.step t') := by
  obtain ⟨output, waiting, wants⟩ := s
  obtain ⟨output', waiting', wants'⟩ := s'
  obtain ⟨ho, hw, hwants⟩ := h
  obtain rfl : wants = wants' := hwants
  obtain ⟨kind, position⟩ := t
  obtain ⟨kind', position'⟩ := t'
  cases ht.kind with
  | term =>
      cases wants with
      | true => exact .ok ⟨.cons ht ho, hw, rfl⟩
      | false => exact .error (ht.error _)
  | openGroup =>
      cases wants with
      | true => exact .ok ⟨ho, .cons ht hw, rfl⟩
      | false => exact .error (ht.error _)
  | closeGroup =>
      cases wants with
      | true => exact .error (ht.error _)
      | false =>
          have hclose := closeGroup?_like hw ho
          simp only [step, Bool.false_eq_true, if_false]
          generalize closeGroup? waiting output = r at hclose
          generalize closeGroup? waiting' output' = r' at hclose
          cases hclose with
          | none => exact .error (ht.error _)
          | some hr => exact .ok ⟨hr.2, hr.1, rfl⟩
  | operator op =>
      have hrelease := release_like op hw ho
      simp only [step]
      split
      · exact .error (ht.error _)
      split
      · exact .error (ht.error _)
      · exact .ok ⟨hrelease.2, .cons ht hrelease.1, rfl⟩

end Postfix

/-- **The postfix pass looks only at the classes of tokens.** -/
theorem toPostfix_like {ts ts' : List Token} (h : List.Forall₂ (Token.Like E L) ts ts') :
    Alike E (List.Forall₂ (Token.Like E L)) (toPostfix ts) (toPostfix ts') := by
  have hstart : Postfix.Like E L {} {} := ⟨.nil, .nil, rfl⟩
  refine (Alike.foldlM h hstart Postfix.step_like).bind fun s s' hs => ?_
  obtain ⟨ho, hw, hwants⟩ := hs
  have hlast : Option.Rel (Token.Like E L) ts.getLast? ts'.getLast? := by
    have hrev := List.forall₂_reverse_iff.mpr h
    rw [List.getLast?_eq_head?_reverse, List.getLast?_eq_head?_reverse]
    generalize ts.reverse = rs at hrev
    generalize ts'.reverse = rs' at hrev
    cases hrev with
    | nil => exact .none
    | cons ht => exact .some ht
  simp only [Postfix.finish, ← hwants]
  generalize ts.getLast? = last at hlast
  generalize ts'.getLast? = last' at hlast
  cases hlast with
  | none => exact Postfix.drain_like hw ho
  | some ht =>
      simp only
      split
      · exact .error (ht.error _)
      · exact Postfix.drain_like hw ho

/-! ### The fold -/

namespace Subtree

/-- The trees are alike and equally deep, and so are errors at their places. -/
structure Like (E : ParseError → ParseError → Prop) (L : Term → Term → Prop)
    (s s' : Subtree) : Prop where
  /-- The trees. -/
  node : s.node.Like L s'.node
  /-- The numbers of levels. -/
  depth : s.depth = s'.depth
  /-- Errors at the two roots are related. -/
  error : ∀ fault, E { fault, position := s.position } { fault, position := s'.position }

variable {stack stack' : List Subtree}

/-- Joined trees are alike, or too deep alike. -/
theorem join_like {node node' : Node} {position position' : Nat} (hnode : node.Like L node')
    (herror : ∀ fault, E { fault, position } { fault, position := position' }) (depth : Nat)
    (h : List.Forall₂ (Like E L) stack stack') :
    Alike E (List.Forall₂ (Like E L)) (join node position depth stack)
      (join node' position' depth stack') := by
  rw [join, join]
  split
  · exact .ok (.cons ⟨hnode, rfl, herror⟩ h)
  · exact .error (herror _)

/-- **One token.** -/
theorem step_like {t t' : Token} (h : List.Forall₂ (Like E L) stack stack')
    (ht : t.Like E L t') :
    Alike E (List.Forall₂ (Like E L)) (step stack t) (step stack' t') := by
  obtain ⟨kind, position⟩ := t
  obtain ⟨kind', position'⟩ := t'
  cases ht.kind with
  | term hterm => exact .ok (.cons ⟨.term hterm, rfl, ht.error⟩ h)
  | openGroup | closeGroup => exact .error (ht.error _)
  | operator op =>
      cases h with
      | nil => cases op <;> exact .error (ht.error _)
      | cons hright hrest =>
          cases op with
          | not =>
              simp only [step, hright.depth]
              exact join_like (.not hright.node) ht.error _ hrest
          | and =>
              cases hrest with
              | nil => exact .error (ht.error _)
              | cons hleft hrest =>
                  simp only [step, hleft.depth, hright.depth]
                  exact join_like (.and hleft.node hright.node) ht.error _ hrest
          | or =>
              cases hrest with
              | nil => exact .error (ht.error _)
              | cons hleft hrest =>
                  simp only [step, hleft.depth, hright.depth]
                  exact join_like (.or hleft.node hright.node) ht.error _ hrest

/-- The end of the fold. -/
theorem finish_like (h : List.Forall₂ (Like E L) stack stack') :
    Alike E (fun Q Q' : Query => Option.Rel (Node.Like L) Q.root Q'.root) (finish stack)
      (finish stack') := by
  have hrev := List.forall₂_reverse_iff.mpr h
  rw [finish, finish]
  generalize stack.reverse = rs at hrev
  generalize stack'.reverse = rs' at hrev
  cases hrev with
  | nil => exact .ok .none
  | cons hroot hrest =>
      cases hrest with
      | nil => exact .ok (.some hroot.node)
      | cons hextra _ => exact .error (hextra.error _)

end Subtree

/-- **The fold looks only at the classes of tokens.** -/
theorem buildTree_like {ts ts' : List Token} (h : List.Forall₂ (Token.Like E L) ts ts') :
    Alike E (fun Q Q' : Query => Option.Rel (Node.Like L) Q.root Q'.root) (buildTree ts)
      (buildTree ts') :=
  (Alike.foldlM h .nil Subtree.step_like).bind fun _ _ => Subtree.finish_like

/-- **Related rows of tokens give related trees**, or fail alike. -/
theorem toPostfix_buildTree_like {ts ts' : List Token}
    (h : List.Forall₂ (Token.Like E L) ts ts') :
    Alike E (fun Q Q' : Query => Option.Rel (Node.Like L) Q.root Q'.root)
      (toPostfix ts >>= buildTree) (toPostfix ts' >>= buildTree) :=
  (toPostfix_like h).bind fun _ _ => buildTree_like

end BoolQuery
