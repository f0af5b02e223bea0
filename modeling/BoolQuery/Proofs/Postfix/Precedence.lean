import BoolQuery.Proofs.Postfix.Frames
import BoolQuery.Proofs.Query.Postorder

/-!
# The Postfix Pass Follows the Grammar

The pass succeeds exactly on the rows of tokens that the precedence grammar derives, and on the
empty row; what comes out is the listing of the phrase they denote, from which its tree is
built back. One direction is an induction on derivations, which says what reading a phrase does
to a stack that does not interfere; the other is the invariant of `Postfix.Reached`.

## Main definitions

* `Postfix.Blocks`: the stack keeps what it has when an operator comes.
* `Postfix.Completes`: reading a row of tokens completes a listing.

## Main results

* `Derives.run`: reading a phrase completes its listing.
* `Derives.toPostfix`, `exists_derives_of_toPostfix`: the two directions.
* `Derives.unique`: the grammar is unambiguous.
* `toPostfix_decides_grammar`: all of it, together with the tree that is built.
-/

namespace BoolQuery

/-- The operator whose phrases make up a level. -/
def Level.operator : Level → Operator
  | .or => .or
  | .and => .and
  | .unary => .not

namespace Postfix

/-! ### From derivations to runs -/

/-- An incoming operator leaves the waiting stack as it is. -/
def Blocks (incoming : Operator) (waiting : List Token) : Prop :=
  ∀ top ∈ waiting.head?, ∀ op, top.kind = .operator op → incoming.releases op = false

theorem Blocks.release {incoming : Operator} {waiting : List Token}
    (h : Blocks incoming waiting) (output : List Token) :
    release incoming waiting output = (waiting, output) := by
  cases waiting with
  | nil => rfl
  | cons top waiting =>
      rw [Postfix.release]
      split
      · next op hkind => rw [h top rfl op hkind]; rfl
      · rfl

/-- What stops a disjunction stops a conjunction. -/
theorem Blocks.and {waiting : List Token} (h : Blocks .or waiting) : Blocks .and waiting := by
  intro top htop op hkind
  have := h top htop op hkind
  cases op <;> simp [Operator.releases, Operator.strength] at this

/-- Nothing is released by a negation. -/
theorem blocks_not (waiting : List Token) : Blocks .not waiting := by
  intro top _ op _
  cases op <;> rfl

/-- Operators in front of an open group go to the output when the group is closed. -/
theorem closeGroup?_append {pending : List Token} (h : ∀ t ∈ pending, t.kind ≠ .openGroup)
    (waiting output : List Token) :
    closeGroup? (pending ++ waiting) output
      = closeGroup? waiting (pending.reverse ++ output) := by
  induction pending generalizing output with
  | nil => rfl
  | cons t pending ih =>
      obtain ⟨ht, hpending⟩ := List.forall_mem_cons.mp h
      rw [List.cons_append, closeGroup?, if_neg ht, ih hpending]
      simp

/-- Operators that wait at the end of the query go to the output. -/
theorem drain_of_ne_openGroup {pending : List Token} (h : ∀ t ∈ pending, t.kind ≠ .openGroup)
    (output : List Token) : drain pending output = .ok (pending.reverse ++ output).reverse := by
  induction pending generalizing output with
  | nil => rfl
  | cons t pending ih =>
      obtain ⟨ht, hpending⟩ := List.forall_mem_cons.mp h
      rw [drain, if_neg ht, ih hpending]
      simp

/-- True of waiting tokens that are all operators and bind at least as tight as `op`. -/
def Tight (op : Operator) (pending : List Token) : Prop :=
  ∀ t ∈ pending, ∃ top, t.kind = .operator top ∧ op.strength ≤ top.strength

theorem tight_nil {op : Operator} : Tight op [] := by
  simp [Tight]

namespace Tight

variable {op op' : Operator} {pending : List Token}

/-- Operators that bind tight bind also tighter than something looser. -/
theorem of_le (h : Tight op pending) (hle : op'.strength ≤ op.strength) : Tight op' pending := by
  intro t ht
  obtain ⟨top, hkind, htop⟩ := h t ht
  exact ⟨top, hkind, by omega⟩

/-- The operator that began to wait first binds as tight as itself. -/
theorem append_operator (h : Tight op pending) (position : Nat) :
    Tight op (pending ++ [⟨.operator op, position⟩]) := by
  intro t ht
  rcases List.mem_append.mp ht with ht | ht
  · exact h t ht
  · obtain rfl := List.mem_singleton.mp ht
    exact ⟨op, rfl, Nat.le_refl _⟩

/-- Operators are not parentheses. -/
theorem kind_ne_openGroup (h : Tight op pending) : ∀ t ∈ pending, t.kind ≠ .openGroup := by
  intro t ht
  obtain ⟨top, hkind, -⟩ := h t ht
  simp [hkind]

/-- An infix operator releases the operators that bind at least as tight. -/
theorem releases (h : Tight op pending) (hop : op ≠ .not) :
    ∀ t ∈ pending, ∃ top, t.kind = .operator top ∧ op.releases top = true := by
  intro t ht
  obtain ⟨top, hkind, hle⟩ := h t ht
  exact ⟨top, hkind, Operator.releases_eq_true_iff.mpr ⟨hop, hle⟩⟩

end Tight

/-- An infix operator sends the operators in front of it that bind at least as tight to the
output, and waits. -/
theorem step_binary (op : Operator) (hop : op ≠ .not) (position : Nat)
    {pending waiting : List Token} (output : List Token) (hpending : Tight op pending)
    (hblocks : Blocks op waiting) :
    Postfix.step ⟨output, pending ++ waiting, false⟩ ⟨.operator op, position⟩
      = .ok ⟨pending.reverse ++ output, ⟨.operator op, position⟩ :: waiting, true⟩ := by
  simp [Postfix.step, hop, release_append (hpending.releases hop), hblocks.release]

/-- A negation waits. -/
theorem step_not (position : Nat) (waiting output : List Token) :
    Postfix.step ⟨output, waiting, true⟩ ⟨.operator .not, position⟩
      = .ok ⟨output, ⟨.operator .not, position⟩ :: waiting, true⟩ := by
  simp [Postfix.step, release_not]

/-- Reading the row `ts` where an operand is wanted adds only operators to the stack that bind at
least as tight as `op`, and these, once released, complete the listing `items`. -/
def Completes (op : Operator) (ts waiting output items : List Token) : Prop :=
  ∃ pending output',
    ts.foldlM Postfix.step ⟨output, waiting, true⟩ = .ok ⟨output', pending ++ waiting, false⟩ ∧
    Tight op pending ∧ pending.reverse ++ output' = items.reverse ++ output

/-- A stack that has only operators that bind tight has only operators that bind tighter than
something looser. -/
theorem Completes.of_le {op op' : Operator} {ts waiting output items : List Token}
    (h : Completes op ts waiting output items) (hle : op'.strength ≤ op.strength) :
    Completes op' ts waiting output items := by
  obtain ⟨pending, output', hrun, hpending, hout⟩ := h
  exact ⟨pending, output', hrun, hpending.of_le hle, hout⟩

/-- An infix operator completes the listing of what stands on its left, and comes itself after
the listing of what stands on its right. -/
theorem Completes.binary {op op' : Operator} {lts rts waiting output left right : List Token}
    (hop : op ≠ .not) (hle : op.strength ≤ op'.strength) (hblocks : Blocks op waiting)
    (position : Nat) (hl : Completes op lts waiting output left)
    (hr : ∀ output', Completes op' rts (⟨.operator op, position⟩ :: waiting) output' right) :
    Completes op (lts ++ ⟨.operator op, position⟩ :: rts) waiting output
      (left ++ right ++ [⟨.operator op, position⟩]) := by
  obtain ⟨pending, mid, hrun, hpending, hout⟩ := hl
  obtain ⟨pending', output', hrun', hpending', hout'⟩ := hr (pending.reverse ++ mid)
  refine ⟨pending' ++ [⟨.operator op, position⟩], output', ?_, ?_, ?_⟩
  · rw [foldlM_append_of_ok hrun,
      foldlM_cons_of_ok (step_binary op hop position mid hpending hblocks), hrun']
    simp
  · exact (hpending'.of_le hle).append_operator position
  · simp [hout', hout]

/-- A negation comes after the listing of what stands behind it. -/
theorem Completes.not {ts waiting output items : List Token} (position : Nat)
    (h : Completes .not ts (⟨.operator .not, position⟩ :: waiting) output items) :
    Completes .not (⟨.operator .not, position⟩ :: ts) waiting output
      (items ++ [⟨.operator .not, position⟩]) := by
  obtain ⟨pending, output', hrun, hpending, hout⟩ := h
  refine ⟨pending ++ [⟨.operator .not, position⟩], output', ?_,
    hpending.append_operator position, ?_⟩
  · rw [foldlM_cons_of_ok (step_not position waiting output), hrun]
    simp
  · simp [hout]

/-- The end of a group completes the listing of what stands in it. -/
theorem Completes.group {ts waiting output items : List Token} (opening closing : Nat)
    (h : Completes .or ts (⟨.openGroup, opening⟩ :: waiting) output items) :
    Completes .not (⟨.openGroup, opening⟩ :: (ts ++ [⟨.closeGroup, closing⟩])) waiting output
      items := by
  obtain ⟨pending, output', hrun, hpending, hout⟩ := h
  have hstep : Postfix.step ⟨output, waiting, true⟩ ⟨.openGroup, opening⟩
      = .ok ⟨output, ⟨.openGroup, opening⟩ :: waiting, true⟩ := rfl
  refine ⟨[], items.reverse ++ output, ?_, tight_nil, rfl⟩
  rw [foldlM_cons_of_ok hstep, foldlM_append_of_ok hrun, foldlM_singleton]
  simp [Postfix.step, closeGroup?_append hpending.kind_ne_openGroup, closeGroup?, hout]

end Postfix

open Postfix

/-- **The pass reads every phrase of the grammar**, if the operators of its level leave the stack
as it is. Induction on the derivation. -/
theorem Derives.run {level : Level} {ts : List Token} {p : Phrase} (h : Derives level ts p)
    {waiting : List Token} (hblocks : Blocks level.operator waiting) (output : List Token) :
    Completes level.operator ts waiting output p.postorder := by
  induction h generalizing waiting output with
  | or position _ _ ihl ihr =>
      have hright : Blocks .and (⟨.operator .or, position⟩ :: waiting) := by
        rintro _ ⟨⟩ _ ⟨⟩
        rfl
      exact .binary (by decide) (by decide) hblocks position (ihl hblocks output) (ihr hright)
  | and position _ _ ihl ihr =>
      have hright : Blocks .not (⟨.operator .and, position⟩ :: waiting) := blocks_not _
      exact .binary (by decide) (by decide) hblocks position (ihl hblocks output) (ihr hright)
  | ofAnd _ ih => exact (ih hblocks.and output).of_le (by decide)
  | ofUnary _ ih => exact (ih (blocks_not waiting) output).of_le (by decide)
  | not position _ ih => exact .not position (ih (blocks_not _) output)
  | term t position => exact ⟨[], _, rfl, tight_nil, rfl⟩
  | group opening closing _ ih =>
      have hopen : Blocks .or (⟨.openGroup, opening⟩ :: waiting) := by
        rintro _ ⟨⟩ _ ⟨⟩
      exact .group opening closing (ih hopen output)

/-- The result of the pass over a row that is not empty, from the state it ends in. -/
theorem toPostfix_of_run {ts : List Token} {s : Postfix} (hrun : ts.foldlM Postfix.step {} = .ok s)
    (hne : ts ≠ []) :
    ∃ last, ts.getLast? = some last ∧ toPostfix ts = s.finish (some last) := by
  obtain ⟨last, hlast⟩ := Option.isSome_iff_exists.mp (List.getLast?_isSome.mpr hne)
  exact ⟨last, hlast, by rw [toPostfix, hrun, hlast]; rfl⟩

/-- A phrase of the grammar comes out as its listing. -/
theorem Derives.toPostfix {ts : List Token} {p : Phrase} (h : Derives .or ts p) :
    toPostfix ts = .ok p.postorder := by
  have hblocks : Blocks .or [] := by rintro _ ⟨⟩
  obtain ⟨S, O, hrun, hS, hout⟩ := h.run hblocks []
  obtain ⟨last, -, heq⟩ := toPostfix_of_run hrun h.ne_nil
  rw [heq]
  simp [Postfix.finish, drain_of_ne_openGroup hS.kind_ne_openGroup, hout]

/-! ### From runs to derivations -/

/-- **What comes out of the pass is the listing of a phrase**, unless nothing went in. -/
theorem exists_derives_of_toPostfix {ts out : List Token} (h : toPostfix ts = .ok out)
    (hne : ts ≠ []) : ∃ p, Derives .or ts p := by
  cases hrun : ts.foldlM Postfix.step {} with
  | error e => rw [toPostfix, hrun] at h; cases h
  | ok s =>
      obtain ⟨last, -, heq⟩ := toPostfix_of_run hrun hne
      rw [heq] at h
      have hreached := reached_nil.run hrun
      rw [List.nil_append] at hreached
      cases hreached with
      | wanting hctx => simp [Postfix.finish] at h
      | complete hctx hp =>
          obtain ⟨read', waiting', output', left, q, hrel, hctx', hq, hread⟩ :=
            hctx.release .or (by decide) hp trivial
          simp only [Postfix.finish, Bool.false_eq_true, if_false, drain_eq hctx.kind_of_mem,
            hrel] at h
          -- nothing may keep waiting, so the phrase is all that was read
          cases hctx' with
          | top => exact ⟨q, hread ▸ hq⟩
          | or => cases h
          | group => cases h

/-- **The pass succeeds exactly on phrases and on nothing.** -/
theorem toPostfix_isOk_iff {ts : List Token} :
    (∃ out, toPostfix ts = .ok out) ↔ ts = [] ∨ ∃ p, Derives .or ts p := by
  constructor
  · rintro ⟨out, h⟩
    by_cases hne : ts = []
    · exact .inl hne
    · exact .inr (exists_derives_of_toPostfix h hne)
  · rintro (rfl | ⟨p, hp⟩)
    · exact ⟨[], rfl⟩
    · exact ⟨_, hp.toPostfix⟩

/-- **What the fold makes of the output of the pass**: nothing of nothing, and otherwise the tree
of the phrase, unless it is too deep. -/
theorem buildTree_of_toPostfix {ts out : List Token} (h : toPostfix ts = .ok out) :
    ts = [] ∧ buildTree out = .ok .empty ∨ ∃ p, Derives .or ts p ∧
      if p.node.depth ≤ maxDepth then buildTree out = .ok ⟨some p.node⟩
      else ∃ position, buildTree out = .error { fault := .tooDeep, position } := by
  by_cases hnil : ts = []
  · subst hnil
    obtain rfl : [] = out := Except.ok.inj h
    exact .inl ⟨rfl, rfl⟩
  · obtain ⟨p, hp⟩ := exists_derives_of_toPostfix h hnil
    obtain rfl := Except.ok.inj (hp.toPostfix.symm.trans h)
    refine .inr ⟨p, hp, ?_⟩
    split
    · next hdepth => exact Phrase.buildTree_postorder hdepth
    · next hdepth => exact Phrase.buildTree_postorder_tooDeep (Nat.not_le.mp hdepth)

/-- **The grammar is unambiguous**: what the pass makes of the tokens is the listing of every
phrase they make up, so there is only one. -/
theorem Derives.unique {ts : List Token} {p q : Phrase} (hp : Derives .or ts p)
    (hq : Derives .or ts q) : p = q :=
  Phrase.eq_of_postorder_eq (Except.ok.inj (hp.toPostfix.symm.trans hq.toPostfix))

/-- **The postfix pass and the fold after it parse exactly the precedence grammar.** The pass
succeeds on a row of tokens if and only if the row is empty or a phrase of the grammar. The
phrase is then unique. The output of the pass is its listing: the listing of the kinds of its
tree, made up of the tokens that were read, parentheses excepted. The fold gives the tree,
unless it has too many levels, and then reports this and nothing else. -/
theorem toPostfix_decides_grammar (ts : List Token) :
    ((∃ out, toPostfix ts = .ok out) ↔ ts = [] ∨ ∃ p, Derives .or ts p) ∧
    ∀ p, Derives .or ts p →
      (∀ q, Derives .or ts q → q = p) ∧
      toPostfix ts = .ok p.postorder ∧
      p.postorder.map Token.kind = p.node.postorder ∧
      p.postorder.Perm (ts.filter (·.kind.isNode)) ∧
      if p.node.depth ≤ maxDepth then buildTree p.postorder = .ok ⟨some p.node⟩
      else ∃ position, buildTree p.postorder = .error { fault := .tooDeep, position } := by
  refine ⟨toPostfix_isOk_iff, fun p hp => ⟨fun q hq => hq.unique hp, hp.toPostfix,
    p.map_kind_postorder, hp.postorder_perm, ?_⟩⟩
  split
  · next hdepth => exact Phrase.buildTree_postorder hdepth
  · next hdepth => exact Phrase.buildTree_postorder_tooDeep (Nat.not_le.mp hdepth)

/-- The negation in `NOT (a OR b) AND c` ends with the group, and comes out before the
conjunction. -/
theorem toPostfix_not_group :
    Derives .or
      [⟨.operator .not, 0⟩, ⟨.openGroup, 4⟩, ⟨.term { value := ['a'] }, 5⟩, ⟨.operator .or, 7⟩,
        ⟨.term { value := ['b'] }, 10⟩, ⟨.closeGroup, 11⟩, ⟨.operator .and, 13⟩,
        ⟨.term { value := ['c'] }, 17⟩]
      (.and 13 (.not 0 (.or 7 (.term { value := ['a'] } 5) (.term { value := ['b'] } 10)))
        (.term { value := ['c'] } 17)) ∧
    toPostfix
      [⟨.operator .not, 0⟩, ⟨.openGroup, 4⟩, ⟨.term { value := ['a'] }, 5⟩, ⟨.operator .or, 7⟩,
        ⟨.term { value := ['b'] }, 10⟩, ⟨.closeGroup, 11⟩, ⟨.operator .and, 13⟩,
        ⟨.term { value := ['c'] }, 17⟩]
      = .ok [⟨.term { value := ['a'] }, 5⟩, ⟨.term { value := ['b'] }, 10⟩, ⟨.operator .or, 7⟩,
        ⟨.operator .not, 0⟩, ⟨.term { value := ['c'] }, 17⟩, ⟨.operator .and, 13⟩] := by
  have hgroup := Derives.group 4 11 (.or 7 (.ofAnd (.ofUnary (.term { value := ['a'] } 5)))
    (.ofUnary (.term { value := ['b'] } 10)))
  have hall := Derives.ofAnd (.and 13 (.ofUnary (.not 0 hgroup)) (.term { value := ['c'] } 17))
  exact ⟨hall, ((toPostfix_decides_grammar _).2 _ hall).2.1⟩

end BoolQuery
