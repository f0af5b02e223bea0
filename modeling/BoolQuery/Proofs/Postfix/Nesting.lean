import BoolQuery.Proofs.Postfix.Precedence

/-!
# Parentheses in the Postfix Pass

The parentheses of a row of tokens **nest** when each closing one has an opening one before it
that is not closed yet. The pass keeps an opening parenthesis waiting as long as its group is
open. So a row whose parentheses nest, none being left open, never makes the pass miss one: it
is refused only where operands and operators do not take turns.

## Main definitions

* `Nests n ts m`: the parentheses of `ts` nest in `n` open groups and leave `m` open.
* `Postfix.groups`: the number of open groups.

## Main results

* `Nests.run`: the pass has as many groups open as the row of tokens says.
* `Nests.fault_of_toPostfix`: what can be wrong with a row whose parentheses nest.
-/

namespace BoolQuery

variable {n m k : Nat} {ts us : List Token} {e : ParseError}

/-- A token of the given kind comes where `n` groups are open, and leaves `m` open. -/
inductive TokenKind.Nests : (kind : TokenKind) → (n m : Nat) → Prop
  | term (t : Term) (n : Nat) : Nests (.term t) n n
  | operator (op : Operator) (n : Nat) : Nests (.operator op) n n
  | openGroup (n : Nat) : Nests .openGroup n (n + 1)
  | closeGroup (n : Nat) : Nests .closeGroup (n + 1) n

/-- The parentheses of the tokens nest, where `n` groups are open before them and `m` after
them. -/
inductive Nests : (n : Nat) → (ts : List Token) → (m : Nat) → Prop
  | nil (n : Nat) : Nests n [] n
  | cons {n k m : Nat} {t : Token} {ts : List Token} :
      t.kind.Nests n k → Nests k ts m → Nests n (t :: ts) m

namespace Postfix

variable {s s' : Postfix} {waiting output : List Token}

/-- The number of opening parentheses among waiting tokens. -/
def openGroups (waiting : List Token) : Nat :=
  waiting.countP (·.kind = .openGroup)

/-- The number of open groups. -/
def groups (s : Postfix) : Nat :=
  openGroups s.waiting

/-- An opening parenthesis that waits is one more open group. -/
theorem openGroups_cons (t : Token) (waiting : List Token) :
    openGroups (t :: waiting)
      = openGroups waiting + if t.kind = .openGroup then 1 else 0 := by
  simp [openGroups, List.countP_cons]

/-- Only operators are released. -/
theorem openGroups_release (incoming : Operator) (waiting output : List Token) :
    openGroups (release incoming waiting output).1 = openGroups waiting := by
  induction waiting generalizing output with
  | nil => rfl
  | cons top waiting ih =>
      rw [release]
      split
      · next op hkind =>
        split
        · rw [ih]
          simp [openGroups_cons, hkind]
        · rfl
      · rfl

/-- Closing a group leaves one less open, and fails only when none is. -/
theorem openGroups_closeGroup? (waiting output : List Token) :
    match closeGroup? waiting output with
    | none => openGroups waiting = 0
    | some (rest, _) => openGroups waiting = openGroups rest + 1 := by
  induction waiting generalizing output with
  | nil => rfl
  | cons top waiting ih =>
      rw [closeGroup?]
      by_cases hkind : top.kind = .openGroup
      · simp [openGroups_cons, hkind]
      · simpa [openGroups_cons, hkind] using ih (top :: output)

/-- When no group is open, all that waits goes to the output. -/
theorem drain_of_openGroups (h : openGroups waiting = 0) (output : List Token) :
    drain waiting output = .ok (waiting.reverse ++ output).reverse :=
  drain_of_ne_openGroup (by simpa [openGroups] using h) output

/-- **One token.** The step that could miss a group is that of a closing parenthesis, and there
a group is open. -/
theorem groups_step {t : Token} (ht : t.kind.Nests n m) (hs : s.groups = n) :
    match s.step t with
    | .ok s' => s'.groups = m
    | .error e => e.fault = .missingOperand ∨ e.fault = .missingOperator := by
  obtain ⟨kind, position⟩ := t
  obtain ⟨output, waiting, wants⟩ := s
  cases ht with
  | term =>
      cases wants with
      | true => exact hs
      | false => exact .inr rfl
  | openGroup =>
      cases wants with
      | true => exact (openGroups_cons _ waiting).trans (congrArg (· + 1) hs)
      | false => exact .inr rfl
  | closeGroup =>
      cases wants with
      | true => exact .inl rfl
      | false =>
          have hclose := openGroups_closeGroup? waiting output
          have hopen : openGroups waiting = m + 1 := hs
          simp only [step, Bool.false_eq_true, if_false]
          cases hresult : closeGroup? waiting output with
          | none =>
              rw [hresult] at hclose
              exact absurd (hclose.symm.trans hopen) (Nat.succ_ne_zero m).symm
          | some r =>
              rw [hresult] at hclose
              exact Nat.succ.inj (hclose.symm.trans hopen)
  | operator op =>
      have hkept := (openGroups_cons ⟨.operator op, position⟩ _).trans
        ((openGroups_release op waiting output).trans hs)
      cases wants with
      | true =>
          cases op with
          | not => exact hkept
          | and | or => exact .inl rfl
      | false =>
          cases op with
          | not => exact .inr rfl
          | and | or => exact hkept

end Postfix

open Postfix

/-- **The pass has as many groups open as the tokens say**, or is refused because operands and
operators do not take turns. -/
theorem Nests.run {s : Postfix} (h : Nests n ts m) (hs : s.groups = n) :
    match ts.foldlM Postfix.step s with
    | .ok s' => s'.groups = m
    | .error e => e.fault = .missingOperand ∨ e.fault = .missingOperator := by
  induction h generalizing s with
  | nil => exact hs
  | @cons _ _ _ t _ ht _ ih =>
      have hnext := groups_step ht hs
      cases hstep : s.step t with
      | error e =>
          rw [hstep] at hnext
          rwa [foldlM_cons_of_error hstep]
      | ok s' =>
          rw [hstep] at hnext
          rw [foldlM_cons_of_ok hstep]
          exact ih hnext

/-- **A row whose parentheses nest is refused only where operands and operators do not take
turns.** -/
theorem Nests.fault_of_toPostfix (h : Nests 0 ts 0) (he : toPostfix ts = .error e) :
    e.fault = .missingOperand ∨ e.fault = .missingOperator := by
  have hrun := h.run (s := {}) rfl
  rw [toPostfix, bind_eq_error_iff] at he
  rcases he with herror | ⟨s, hok, hfinish⟩
  · rwa [herror] at hrun
  · rw [hok] at hrun
    have hdrain := drain_of_openGroups hrun s.output
    cases hlast : ts.getLast? with
    | none =>
        rw [hlast] at hfinish
        exact absurd (hdrain.symm.trans hfinish) (by simp)
    | some t =>
        rw [hlast, finish] at hfinish
        split at hfinish
        · obtain rfl := Except.error.inj hfinish
          exact .inl rfl
        · exact absurd (hdrain.symm.trans hfinish) (by simp)

end BoolQuery
