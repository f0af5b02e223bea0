import BoolQuery.Postfix
import BoolQuery.Proofs.Fold
import BoolQuery.Proofs.Grammar

/-!
# What Waits in the Postfix Pass

Between two tokens, the waiting stack of the postfix pass is a derivation with a hole: each
waiting token is a production that has been begun, and its left operand, if it has one, is in
the output already. The hole is where the next phrase goes, and its level says how tightly
that phrase must bind. This is the invariant of the pass: operators wait in the order in which
they bind, loosest first, from the innermost open group outwards.

## Main definitions

* `Context level read waiting output`: the pass has read `read`, and its stack and output are
  those of a derivation with a hole of the given level.
* `Reached read s`: the state `s` comes after `read`: a context, alone when an operand is
  wanted, and with an operand in its hole when not.

## Main results

* `Context.release`: releasing operators closes begun productions around the phrase in the
  hole.
* `Reached.step`: every token that is accepted keeps the invariant.
* `Reached.run`: so does every row of tokens.
-/

namespace BoolQuery

/-! ### Levels and operators -/

/-- True when a phrase of level `small` may stand where one of level `large` is asked for. -/
def Level.fits : (small large : Level) → Prop
  | .unary, _ => True
  | .and, large => large ≠ .unary
  | .or, large => large = .or

/-- The level of the phrases that an operator makes. -/
@[simp] def Operator.level : Operator → Level
  | .and => .and
  | .or => .or
  | .not => .unary

/-- A phrase may stand where a looser one is asked for. -/
theorem Derives.of_fits {small large : Level} {ts : List Token} {p : Phrase}
    (h : Derives small ts p) (hfits : small.fits large) : Derives large ts p := by
  cases small <;> cases large <;> simp only [Level.fits, ne_eq, reduceCtorEq, not_true] at hfits
  · exact h
  · exact h.ofAnd
  · exact h
  · exact h.ofUnary.ofAnd
  · exact h.ofUnary
  · exact h

/-- An incoming conjunction releases the waiting operators that bind at least as tight, an
incoming disjunction all of them, an incoming negation none. -/
theorem Operator.releases_eq_true_iff {incoming top : Operator} :
    incoming.releases top = true ↔ incoming ≠ .not ∧ incoming.strength ≤ top.strength := by
  cases incoming <;> cases top <;> decide

namespace Postfix

/-! ### Releasing -/

/-- Operators that are all released go to the output in one go. -/
theorem release_append {incoming : Operator} {released : List Token}
    (h : ∀ t ∈ released, ∃ op, t.kind = .operator op ∧ incoming.releases op = true)
    (waiting output : List Token) :
    release incoming (released ++ waiting) output
      = release incoming waiting (released.reverse ++ output) := by
  induction released generalizing output with
  | nil => rfl
  | cons t released ih =>
      obtain ⟨op, hop, hrel⟩ := h t List.mem_cons_self
      rw [List.cons_append, release, hop]
      simp only [hrel, if_true]
      rw [ih (fun t ht => h t (List.mem_cons_of_mem _ ht))]
      simp

/-- A negation releases nothing. -/
theorem release_not (waiting output : List Token) :
    release .not waiting output = (waiting, output) := by
  cases waiting with
  | nil => rfl
  | cons t waiting =>
      rw [release]
      split
      · next op _ => cases op <;> rfl
      · rfl

/-- A group is closed by doing what a disjunction does, and then removing the parenthesis that
stopped it. -/
theorem closeGroup?_eq {waiting : List Token}
    (h : ∀ t ∈ waiting, t.kind = .openGroup ∨ ∃ op, t.kind = .operator op)
    (output : List Token) :
    closeGroup? waiting output =
      match release .or waiting output with
      | ([], _) => none
      | (_ :: rest, output') => some (rest, output') := by
  induction waiting generalizing output with
  | nil => rfl
  | cons t waiting ih =>
      have ih := ih fun t ht => h t (List.mem_cons_of_mem _ ht)
      rcases h t List.mem_cons_self with hkind | ⟨op, hkind⟩
      · simp [closeGroup?, release, hkind]
      · have hrel : Operator.or.releases op = true := by cases op <;> rfl
        simp [closeGroup?, release, hkind, hrel, ih]

/-- The end of the query does what a disjunction does, and fails at a parenthesis that stops
it. -/
theorem drain_eq {waiting : List Token}
    (h : ∀ t ∈ waiting, t.kind = .openGroup ∨ ∃ op, t.kind = .operator op)
    (output : List Token) :
    drain waiting output =
      match release .or waiting output with
      | ([], output') => .ok output'.reverse
      | (top :: _, _) => .error { fault := .missingClose, position := top.position } := by
  induction waiting generalizing output with
  | nil => rfl
  | cons t waiting ih =>
      have ih := ih fun t ht => h t (List.mem_cons_of_mem _ ht)
      rcases h t List.mem_cons_self with hkind | ⟨op, hkind⟩
      · simp [drain, release, hkind]
      · have hrel : Operator.or.releases op = true := by cases op <;> rfl
        simp [drain, release, hkind, hrel, ih]

/-! ### Contexts -/

/-- A derivation with a hole of level `level`, innermost production last: what has been read
of it, what waits, and what is in the output, both latest token first. -/
inductive Context : (level : Level) → (read waiting output : List Token) → Prop
  | top {level : Level} : Context level [] [] []
  | not {read waiting output : List Token} (position : Nat) :
      Context .unary read waiting output →
      Context .unary (read ++ [⟨.operator .not, position⟩])
        (⟨.operator .not, position⟩ :: waiting) output
  | and {read waiting output left : List Token} {p : Phrase} (position : Nat) :
      Context .and read waiting output → Derives .and left p →
      Context .unary (read ++ left ++ [⟨.operator .and, position⟩])
        (⟨.operator .and, position⟩ :: waiting) (p.postorder.reverse ++ output)
  | or {level : Level} {read waiting output left : List Token} {p : Phrase} (position : Nat) :
      Context .or read waiting output → Derives .or left p → level.fits .and →
      Context level (read ++ left ++ [⟨.operator .or, position⟩])
        (⟨.operator .or, position⟩ :: waiting) (p.postorder.reverse ++ output)
  | group {level : Level} {read waiting output : List Token} (position : Nat) :
      Context .unary read waiting output →
      Context level (read ++ [⟨.openGroup, position⟩]) (⟨.openGroup, position⟩ :: waiting) output

namespace Context

variable {level : Level} {read waiting output ts : List Token} {p : Phrase}

/-- Only operators and opening parentheses wait. -/
theorem kind_of_mem (h : Context level read waiting output) :
    ∀ t ∈ waiting, t.kind = .openGroup ∨ ∃ op, t.kind = .operator op := by
  induction h with
  | top => simp
  | not _ _ ih | and _ _ _ ih | or _ _ _ _ ih =>
      exact List.forall_mem_cons.mpr ⟨.inr ⟨_, rfl⟩, ih⟩
  | group _ _ ih => exact List.forall_mem_cons.mpr ⟨.inl rfl, ih⟩

/-- A conjunction or disjunction, when it comes, closes the productions whose operators it
releases, and finds a phrase of its own level on its left. Induction on the context: each
released operator makes a larger phrase of the one in the hole. -/
theorem release (op : Operator) (hop : op ≠ .not) (h : Context level read waiting output)
    (hp : Derives level ts p) (hfits : level.fits op.level) :
    ∃ read' waiting' output' left q,
      Postfix.release op waiting (p.postorder.reverse ++ output)
        = (waiting', q.postorder.reverse ++ output') ∧
      Context op.level read' waiting' output' ∧ Derives op.level left q ∧
      read ++ ts = read' ++ left := by
  induction h generalizing ts p with
  | top => exact ⟨[], [], [], ts, p, rfl, .top, hp.of_fits hfits, rfl⟩
  | not position hctx ih =>
      obtain ⟨read', waiting', output', left, q, hrel, hctx', hq, hread⟩ :=
        ih (hp.not position) hfits
      refine ⟨read', waiting', output', left, q, ?_, hctx', hq, by simpa using hread⟩
      have htop : op.releases .not = true := by cases op <;> simp at hop <;> rfl
      simpa [Postfix.release, htop, Phrase.postorder] using hrel
  | and position hctx hleft ih =>
      obtain ⟨read', waiting', output', left, q, hrel, hctx', hq, hread⟩ :=
        ih (hleft.and position hp) (by cases op <;> simp [Level.fits] at hop ⊢)
      refine ⟨read', waiting', output', left, q, ?_, hctx', hq, by simpa using hread⟩
      have htop : op.releases .and = true := by cases op <;> simp at hop <;> rfl
      simpa [Postfix.release, htop, Phrase.postorder] using hrel
  | or position hctx hleft hlevel ih =>
      cases op with
      | not => exact absurd rfl hop
      | and =>
          -- a disjunction keeps waiting when a conjunction comes
          exact ⟨_, _, _, ts, p, rfl, .or position hctx hleft (by simp [Level.fits]),
            hp.of_fits hfits, rfl⟩
      | or =>
          obtain ⟨read', waiting', output', left, q, hrel, hctx', hq, hread⟩ :=
            ih (hleft.or position (hp.of_fits hlevel)) rfl
          refine ⟨read', waiting', output', left, q, ?_, hctx', hq, by simpa using hread⟩
          simpa [Postfix.release, Operator.releases, Phrase.postorder] using hrel
  | group position hctx _ =>
      exact ⟨_, _, _, ts, p, rfl, .group position hctx, hp.of_fits hfits, rfl⟩

/-- What keeps waiting when a disjunction has come is the parenthesis of an open group. -/
theorem of_group {top : Token} (h : Context .or read (top :: waiting) output)
    (hne : ∀ op, top.kind ≠ .operator op) :
    ∃ read' position, top = ⟨.openGroup, position⟩ ∧ read = read' ++ [top] ∧
      Context .unary read' waiting output := by
  cases h with
  | or position hctx hleft hlevel => exact absurd rfl (hne .or)
  | group position hctx => exact ⟨_, position, rfl, rfl, hctx⟩

end Context

/-- A disjunction releases every operator. -/
theorem ne_operator_of_release_or {waiting output rest output' : List Token} {top : Token}
    (h : release .or waiting output = (top :: rest, output')) :
    ∀ op, top.kind ≠ .operator op := by
  induction waiting generalizing output with
  | nil => simp [release] at h
  | cons t waiting ih =>
      rw [release] at h
      split at h
      · next op hkind =>
        have hrel : Operator.or.releases op = true := by cases op <;> rfl
        rw [if_pos hrel] at h
        exact ih h
      · next hne =>
        simp only [Prod.mk.injEq, List.cons.injEq] at h
        obtain ⟨⟨rfl, -⟩, -⟩ := h
        exact hne

/-! ### The invariant -/

/-- The state `s` comes after the tokens `read`: a context with an empty hole when an operand
is wanted, and with an operand in the hole when not. -/
inductive Reached : (read : List Token) → (s : Postfix) → Prop
  | wanting {read waiting output : List Token} :
      Context .unary read waiting output → Reached read ⟨output, waiting, true⟩
  | complete {read waiting output ts : List Token} {p : Phrase} :
      Context .unary read waiting output → Derives .unary ts p →
      Reached (read ++ ts) ⟨p.postorder.reverse ++ output, waiting, false⟩

namespace Reached

variable {read waiting output ts : List Token} {s s' : Postfix} {p : Phrase} {position : Nat}

/-- A closing parenthesis makes an operand of the group that it closes. -/
theorem step_closeGroup (hctx : Context .unary read waiting output) (hp : Derives .unary ts p)
    (hstep : Postfix.step ⟨p.postorder.reverse ++ output, waiting, false⟩ ⟨.closeGroup, position⟩
      = .ok s') : Reached (read ++ ts ++ [⟨.closeGroup, position⟩]) s' := by
  obtain ⟨read', waiting', output', left, q, hrel, hctx', hq, hread⟩ :=
    hctx.release .or (by decide) hp trivial
  simp only [Postfix.step, closeGroup?_eq hctx.kind_of_mem, hrel, Bool.false_eq_true,
    if_false] at hstep
  cases waiting' with
  | nil => simp at hstep
  | cons top rest =>
      obtain rfl : _ = s' := Except.ok.inj hstep
      obtain ⟨outer, opening, rfl, rfl, houter⟩ := hctx'.of_group (ne_operator_of_release_or hrel)
      have hgroup : read ++ ts ++ [⟨.closeGroup, position⟩]
          = outer ++ (⟨.openGroup, opening⟩ :: (left ++ [⟨.closeGroup, position⟩])) := by
        rw [hread]
        simp
      rw [hgroup]
      exact .complete houter (.group opening position hq)

/-- A conjunction or disjunction waits for its second operand; its first one is the phrase of
its own level on its left. -/
theorem step_binary {op : Operator} (hop : op ≠ .not) (hctx : Context .unary read waiting output)
    (hp : Derives .unary ts p)
    (hstep : Postfix.step ⟨p.postorder.reverse ++ output, waiting, false⟩ ⟨.operator op, position⟩
      = .ok s') : Reached (read ++ ts ++ [⟨.operator op, position⟩]) s' := by
  obtain ⟨read', waiting', output', left, q, hrel, hctx', hq, hread⟩ :=
    hctx.release op hop hp trivial
  simp only [Postfix.step, hop, decide_false, Bool.false_and, Bool.false_eq_true, if_false,
    Bool.and_false, hrel] at hstep
  obtain rfl : _ = s' := Except.ok.inj hstep
  rw [hread]
  cases op with
  | not => exact absurd rfl hop
  | and => exact .wanting (.and position hctx' hq)
  | or => exact .wanting (.or position hctx' hq trivial)

/-- **Every token that is accepted keeps the invariant.** -/
theorem step {t : Token} (h : Reached read s) (hstep : s.step t = .ok s') :
    Reached (read ++ [t]) s' := by
  obtain ⟨kind, position⟩ := t
  cases h with
  | @wanting read waiting output hctx =>
      cases kind with
      | term term =>
          obtain rfl : _ = s' := Except.ok.inj hstep
          exact .complete hctx (.term term position)
      | openGroup =>
          obtain rfl : _ = s' := Except.ok.inj hstep
          exact .wanting (.group position hctx)
      | closeGroup => simp [Postfix.step] at hstep
      | operator op =>
          cases op with
          | not =>
              simp only [Postfix.step, release_not] at hstep
              obtain rfl : _ = s' := Except.ok.inj hstep
              exact .wanting (.not position hctx)
          | and => simp [Postfix.step] at hstep
          | or => simp [Postfix.step] at hstep
  | @complete read waiting output ts p hctx hp =>
      cases kind with
      | term term => simp [Postfix.step] at hstep
      | openGroup => simp [Postfix.step] at hstep
      | closeGroup => exact step_closeGroup hctx hp hstep
      | operator op =>
          by_cases hop : op = .not
          · simp [Postfix.step, hop] at hstep
          · exact step_binary hop hctx hp hstep

/-- **Every row of tokens that is accepted keeps the invariant.** -/
theorem run (h : Reached read s)
    (hrun : ts.foldlM Postfix.step s = .ok s') : Reached (read ++ ts) s' := by
  induction ts generalizing read s with
  | nil =>
      obtain rfl : s = s' := Except.ok.inj hrun
      simpa using h
  | cons t ts ih =>
      cases hstep : s.step t with
      | error e => simp [foldlM_cons_of_error hstep] at hrun
      | ok next =>
          rw [foldlM_cons_of_ok hstep] at hrun
          simpa using ih (h.step hstep) hrun

end Reached

/-- The pass begins with nothing read. -/
theorem reached_nil : Reached [] {} :=
  .wanting .top

end Postfix

end BoolQuery
