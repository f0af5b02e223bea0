import BoolQuery.Proofs.Brackets
import BoolQuery.Proofs.Postfix.Precedence

/-!
# The First Impossible Token

A row of tokens is **viable** when the postfix pass accepts it with more behind it. The pass has
the viable-prefix property: as long as it goes on, what it has read is viable, and it stops at the
first token up to which the row is not viable any more. So a row that is refused only at its end
is viable. What it lacks is an operand behind its last token, or the end of a group.

That what has been read is viable is read off the derivation with a hole that the state of the
pass stands for: a term fills the hole, and the open groups are closed from the inside out.

## Main definitions

* `Viable`: rows that are accepted with more behind them.
* `WantsOperand`: rows behind which an operand must come.
* `Token.bracket?`: parentheses as brackets.

## Main results

* `Postfix.Context.exists_derives`, `Postfix.Reached.viable`: a derivation with a hole can be
  completed.
* `Derives.balanced`: the parentheses of a phrase are balanced.
* `toPostfix_viable_prefix`: where the pass fails, and why.
-/

namespace BoolQuery

open Postfix

/-- The pass accepts the row with more behind it. -/
def Viable (ts : List Token) : Prop :=
  ∃ more out, toPostfix (ts ++ more) = .ok out

/-- An operand must come behind an operator and behind an opening parenthesis. -/
def TokenKind.wantsOperand : TokenKind → Bool
  | .operator _ | .openGroup => true
  | .term _ | .closeGroup => false

/-- An operand must come behind the row: it is empty, or ends in an operator or in an opening
parenthesis. -/
def WantsOperand (ts : List Token) : Prop :=
  ts.getLast?.all (·.kind.wantsOperand) = true

instance (ts : List Token) : Decidable (WantsOperand ts) :=
  inferInstanceAs (Decidable (_ = true))

/-- A parenthesis as a bracket. -/
def Token.bracket? (t : Token) : Option Bracket :=
  match t.kind with
  | .openGroup => some ⟨.group, .opening⟩
  | .closeGroup => some ⟨.group, .closing⟩
  | _ => none

@[simp] theorem Token.bracket?_term (term : Term) (position : Nat) :
    Token.bracket? ⟨.term term, position⟩ = none :=
  rfl

@[simp] theorem Token.bracket?_operator (op : Operator) (position : Nat) :
    Token.bracket? ⟨.operator op, position⟩ = none :=
  rfl

@[simp] theorem Token.bracket?_openGroup (position : Nat) :
    Token.bracket? ⟨.openGroup, position⟩ = some ⟨.group, .opening⟩ :=
  rfl

@[simp] theorem Token.bracket?_closeGroup (position : Nat) :
    Token.bracket? ⟨.closeGroup, position⟩ = some ⟨.group, .closing⟩ :=
  rfl

variable {level : Level} {front ts read waiting output : List Token} {p : Phrase} {s : Postfix}
  {t : Token} {e : ParseError}

/-- Only the last token tells whether an operand must come. -/
theorem wantsOperand_append (hne : ts ≠ []) :
    WantsOperand (front ++ ts) ↔ WantsOperand ts := by
  rw [WantsOperand, WantsOperand, List.getLast?_append,
    Option.or_of_isSome (List.getLast?_isSome.mpr hne)]

@[simp] theorem wantsOperand_append_singleton :
    WantsOperand (front ++ [t]) ↔ t.kind.wantsOperand = true := by
  simp [WantsOperand]

/-- Every phrase may stand where a disjunction is asked for. -/
theorem Level.fits_or (level : Level) : level.fits .or := by
  cases level <;> simp [Level.fits]

/-! ### Phrases -/

/-- The parentheses of a phrase are balanced. -/
theorem Derives.balanced (h : Derives level ts p) : Balanced (ts.filterMap Token.bracket?) := by
  induction h with
  | or _ _ _ ihl ihr | and _ _ _ ihl ihr => simpa [List.filterMap_cons] using ihl.append ihr
  | ofAnd _ ih | ofUnary _ ih => exact ih
  | not _ _ ih => simpa [List.filterMap_cons] using ih
  | term => exact .nil
  | group _ _ _ ih => simpa using ih.pair .group

/-- A phrase ends in a term or in a closing parenthesis, and wants no operand. -/
theorem Derives.not_wantsOperand (h : Derives level ts p) : ¬ WantsOperand ts := by
  induction h with
  | or _ _ hright _ ihr | and _ _ hright _ ihr =>
      rwa [List.append_cons, wantsOperand_append hright.ne_nil]
  | ofAnd _ ih | ofUnary _ ih => exact ih
  | @not ts _ position hts ih =>
      have hsplit : ⟨.operator .not, position⟩ :: ts = [⟨.operator .not, position⟩] ++ ts := rfl
      rwa [hsplit, wantsOperand_append hts.ne_nil]
  | term => simp [WantsOperand, TokenKind.wantsOperand]
  | group =>
      rw [← List.cons_append, wantsOperand_append_singleton]
      exact Bool.false_ne_true

namespace Postfix

/-- A derivation with a hole that nothing fills wants an operand. -/
theorem Context.wantsOperand (h : Context .unary read waiting output) : WantsOperand read := by
  cases h with
  | top => rfl
  | not | and | or | group => exact wantsOperand_append_singleton.mpr rfl

/-- **A derivation with a hole can be completed** around every phrase of its level. Induction on
the context: each production makes a larger phrase, and a group is closed. -/
theorem Context.exists_derives (h : Context level read waiting output)
    (hp : Derives level ts p) : ∃ more q, Derives .or (read ++ ts ++ more) q := by
  induction h generalizing ts p with
  | top => exact ⟨[], p, by simpa using hp.of_fits (Level.fits_or _)⟩
  | not position _ ih =>
      obtain ⟨more, q, hq⟩ := ih (hp.not position)
      exact ⟨more, q, by simpa using hq⟩
  | and position _ hleft ih =>
      obtain ⟨more, q, hq⟩ := ih (hleft.and position hp)
      exact ⟨more, q, by simpa using hq⟩
  | or position _ hleft hlevel ih =>
      obtain ⟨more, q, hq⟩ := ih (hleft.or position (hp.of_fits hlevel))
      exact ⟨more, q, by simpa using hq⟩
  | group opening _ ih =>
      obtain ⟨more, q, hq⟩ := ih (.group opening 0 (hp.of_fits (Level.fits_or _)))
      exact ⟨⟨.closeGroup, 0⟩ :: more, q, by simpa using hq⟩

/-- **What has been read is viable.** -/
theorem Reached.viable (h : Reached read s) : Viable read := by
  cases h with
  | wanting hctx =>
      obtain ⟨more, q, hq⟩ := hctx.exists_derives (.term { value := [] } 0)
      exact ⟨⟨.term { value := [] }, 0⟩ :: more, _, by simpa using hq.toPostfix⟩
  | complete hctx hp =>
      obtain ⟨more, q, hq⟩ := hctx.exists_derives hp
      exact ⟨more, _, hq.toPostfix⟩

/-- The pass knows whether an operand must come. -/
theorem Reached.wantsOperand_iff (h : Reached read s) :
    s.wantsOperand = true ↔ WantsOperand read := by
  cases h with
  | wanting hctx => exact iff_of_true rfl hctx.wantsOperand
  | complete _ hp => exact iff_of_false Bool.false_ne_true (by
        rw [wantsOperand_append hp.ne_nil]
        exact hp.not_wantsOperand)

/-- **A token that is refused** is a closing parenthesis or an infix operator where an operand must
come, or the beginning of an operand where none can, or a closing parenthesis without an opening
one. -/
theorem step_eq_error (h : s.step t = .error e) :
    if s.wantsOperand then
      t.kind ∈ [.operator .and, .operator .or, .closeGroup] ∧
        e = { fault := .missingOperand, position := t.position }
    else
      t.kind ∉ [.operator .and, .operator .or] ∧
        e = { fault := if t.kind = .closeGroup then .missingOpen else .missingOperator
              position := t.position } := by
  obtain ⟨kind, position⟩ := t
  obtain ⟨output, waiting, wants⟩ := s
  cases wants with
  | true =>
      cases kind with
      | term | openGroup => cases h
      | closeGroup => exact ⟨by simp, (Except.error.inj h).symm⟩
      | operator op =>
          cases op with
          | not => cases h
          | and | or => exact ⟨by simp, (Except.error.inj h).symm⟩
  | false =>
      cases kind with
      | term | openGroup => exact ⟨by simp, (Except.error.inj h).symm⟩
      | closeGroup =>
          simp only [step, Bool.false_eq_true, if_false] at h
          split at h
          · exact ⟨by simp, (Except.error.inj h).symm⟩
          · cases h
      | operator op =>
          cases op with
          | not => exact ⟨by simp, (Except.error.inj h).symm⟩
          | and | or => cases h

/-- **A pass that fails at its end** lacks an operand, or the end of the group that is open
innermost: what has been read behind its parenthesis is a phrase. -/
theorem Reached.finish_eq_error {last : Token} (h : Reached ts s)
    (hfinish : s.finish (some last) = .error e) :
    if WantsOperand ts then e = { fault := .missingOperand, position := last.position }
    else ∃ t, LastOpen Token.bracket? ts t ∧
      e = { fault := .missingClose, position := t.position } := by
  have hwants := h.wantsOperand_iff
  cases h with
  | wanting hctx =>
      rw [if_pos (hwants.mp rfl)]
      exact (Except.error.inj hfinish).symm
  | complete hctx hp =>
      rw [if_neg fun hwant => Bool.false_ne_true (hwants.mpr hwant)]
      obtain ⟨read', waiting', output', left, q, hrel, hctx', hq, hread⟩ :=
        hctx.release .or (by decide) hp trivial
      simp only [finish, Bool.false_eq_true, if_false, drain_eq hctx.kind_of_mem, hrel] at hfinish
      cases waiting' with
      | nil => cases hfinish
      | cons top rest =>
          obtain ⟨outer, opening, rfl, rfl, -⟩ :=
            hctx'.of_group (ne_operator_of_release_or hrel)
          refine ⟨⟨.openGroup, opening⟩, ?_, (Except.error.inj hfinish).symm⟩
          rw [hread, ← List.append_cons]
          exact lastOpen_of_balanced outer (Token.bracket?_openGroup opening) hq.balanced

end Postfix

/-- What comes behind a token that is refused does not matter. -/
theorem not_viable_of_step (hrun : read.foldlM Postfix.step {} = .ok s)
    (hstep : s.step t = .error e) : ¬ Viable (read ++ [t]) := by
  rintro ⟨more, out, hok⟩
  rw [List.append_assoc, List.singleton_append, toPostfix, foldlM_append_of_ok hrun,
    foldlM_cons_of_error hstep] at hok
  cases hok

/-- **The pass reports the first impossible token.** If it fails, then either there is a token up
to which the row is not viable while the tokens before it are, and this token is reported: it
stands in the place of an operand, or begins an operand where none can be, or closes a group that
is not open. Or the whole row is viable, and lacks an operand behind its last token, or else the
end of a group: that of the last opening parenthesis without a match. -/
theorem toPostfix_viable_prefix (h : toPostfix ts = .error e) :
    (∃ pre t post, ts = pre ++ t :: post ∧ Viable pre ∧ ¬ Viable (pre ++ [t]) ∧
      if WantsOperand pre then
        t.kind ∈ [.operator .and, .operator .or, .closeGroup] ∧
          e = { fault := .missingOperand, position := t.position }
      else
        t.kind ∉ [.operator .and, .operator .or] ∧
          e = { fault := if t.kind = .closeGroup then .missingOpen else .missingOperator
                position := t.position }) ∨
    (Viable ts ∧
      if WantsOperand ts then
        ∃ last, ts.getLast? = some last ∧
          e = { fault := .missingOperand, position := last.position }
      else
        ∃ t, LastOpen Token.bracket? ts t ∧
          e = { fault := .missingClose, position := t.position }) := by
  rw [toPostfix, bind_eq_error_iff] at h
  rcases h with herror | ⟨s, hrun, hfinish⟩
  · obtain ⟨pre, t, post, s, rfl, hrun, hstep⟩ := foldlM_eq_error_iff.mp herror
    have hreached := reached_nil.run hrun
    rw [List.nil_append] at hreached
    refine .inl ⟨pre, t, post, rfl, hreached.viable, not_viable_of_step hrun hstep, ?_⟩
    simpa only [hreached.wantsOperand_iff] using step_eq_error hstep
  · have hreached := reached_nil.run hrun
    rw [List.nil_append] at hreached
    refine .inr ⟨hreached.viable, ?_⟩
    cases hlast : ts.getLast? with
    | none =>
        obtain rfl := List.getLast?_eq_none_iff.mp hlast
        obtain rfl : ({} : Postfix) = s := Except.ok.inj hrun
        cases hfinish
    | some last =>
        rw [hlast] at hfinish
        have hfault := hreached.finish_eq_error hfinish
        split at hfault
        · next hwants => exact (if_pos hwants).mpr ⟨last, rfl, hfault⟩
        · next hwants => exact (if_neg hwants).mpr hfault

/-- In `a AND ((b)` the inner group is closed, and the outer one could still be. -/
theorem toPostfix_viable_prefix_nested :
    let ts : List Token := [⟨.term { value := ['a'] }, 0⟩, ⟨.operator .and, 2⟩, ⟨.openGroup, 6⟩,
      ⟨.openGroup, 7⟩, ⟨.term { value := ['b'] }, 8⟩, ⟨.closeGroup, 9⟩]
    toPostfix ts = .error { fault := .missingClose, position := 6 } ∧ Viable ts ∧
      ∃ t, LastOpen Token.bracket? ts t ∧ t.position = 6 := by
  intro ts
  have herror : toPostfix ts = .error { fault := .missingClose, position := 6 } := by decide
  rcases toPostfix_viable_prefix herror with ⟨pre, t, post, -, -, -, hfault⟩ | ⟨hviable, hfault⟩
  · -- no token of the row is reported for what is missing behind it
    split at hfault
    · cases congrArg ParseError.fault hfault.2
    · split at hfault <;> cases congrArg ParseError.fault hfault.2
  · rw [if_neg (by decide)] at hfault
    obtain ⟨t, ht, he⟩ := hfault
    exact ⟨herror, hviable, t, ht, (congrArg ParseError.position he).symm⟩

end BoolQuery
