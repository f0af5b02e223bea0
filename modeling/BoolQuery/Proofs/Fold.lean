import Mathlib.Tactic.Common

/-!
# Steps That Can Fail

The passes over a query are left folds of a step that may fail. Such a fold over a longer row
is the fold over its front, and, if that succeeds, the fold over the rest from there; the first
failure is the failure of the whole.

## Main results

* `bind_eq_ok_iff`, `bind_eq_error_iff`: when one step after the other succeeds, and when not.
* `map_eq_ok_iff`: when a step whose result is changed afterwards succeeds.
* `foldlM_append_of_ok`, `foldlM_append_of_error`: a fold over two rows, by the outcome of the
  first.
* `foldlM_cons_of_ok`, `foldlM_cons_of_error`: the same for a single first step.
* `foldlM_eq_error_iff`: a fold fails at the first step that does.
-/

namespace BoolQuery

variable {α σ ε : Type} {f : σ → α → Except ε σ} {s s' : σ} {e : ε} {a : α} {xs : List α}

/-- One step after the other succeeds when both do. -/
theorem bind_eq_ok_iff {β : Type} {x : Except ε α} {g : α → Except ε β} {b : β} :
    x >>= g = .ok b ↔ ∃ a, x = .ok a ∧ g a = .ok b := by
  cases x with
  | error e => exact iff_of_false nofun fun ⟨_, h, _⟩ => nomatch h
  | ok a =>
      constructor
      · intro h
        exact ⟨a, rfl, h⟩
      · rintro ⟨_, ⟨⟩, h⟩
        exact h

/-- One step after the other fails when the first does, or the second where the first ends. -/
theorem bind_eq_error_iff {β : Type} {x : Except ε α} {g : α → Except ε β} :
    x >>= g = .error e ↔ x = .error e ∨ ∃ a, x = .ok a ∧ g a = .error e := by
  cases x with
  | error e' =>
      have hbind : (Except.error e' : Except ε α) >>= g = .error e' := rfl
      simp [hbind]
  | ok a =>
      have hbind : (Except.ok a : Except ε α) >>= g = g a := rfl
      simp [hbind]

/-- A result that is changed afterwards is one that there was. -/
theorem map_eq_ok_iff {β : Type} {x : Except ε α} {g : α → β} {b : β} :
    x.map g = .ok b ↔ ∃ a, x = .ok a ∧ g a = b := by
  cases x <;> simp [Except.map]

/-- After a first step that succeeds, the fold goes on from there. -/
theorem foldlM_cons_of_ok (h : f s a = .ok s') (xs : List α) :
    (a :: xs).foldlM f s = xs.foldlM f s' := by
  rw [List.foldlM_cons, h]
  rfl

/-- A first step that fails is the failure of the fold. -/
theorem foldlM_cons_of_error (h : f s a = .error e) (xs : List α) :
    (a :: xs).foldlM f s = .error e := by
  rw [List.foldlM_cons, h]
  rfl

/-- A fold over one element is a step. -/
@[simp] theorem foldlM_singleton : [a].foldlM f s = f s a := by
  cases h : f s a with
  | ok s' => exact foldlM_cons_of_ok h []
  | error e => exact foldlM_cons_of_error h []

/-- After a front over which the fold succeeds, the fold goes on from there. -/
theorem foldlM_append_of_ok (h : xs.foldlM f s = .ok s') (ys : List α) :
    (xs ++ ys).foldlM f s = ys.foldlM f s' := by
  rw [List.foldlM_append, h]
  rfl

/-- A fold over two rows succeeds when it does over the one and from there over the other. -/
theorem foldlM_append_eq_ok_iff {ys : List α} :
    (xs ++ ys).foldlM f s = .ok s' ↔ ∃ mid, xs.foldlM f s = .ok mid ∧ ys.foldlM f mid = .ok s' := by
  rw [List.foldlM_append, bind_eq_ok_iff]

/-- A fold over a row succeeds when its first step does and the fold over the rest from there. -/
theorem foldlM_cons_eq_ok_iff :
    (a :: xs).foldlM f s = .ok s' ↔ ∃ mid, f s a = .ok mid ∧ xs.foldlM f mid = .ok s' := by
  rw [List.foldlM_cons, bind_eq_ok_iff]

/-- A failure over the front is the failure of the fold. -/
theorem foldlM_append_of_error (h : xs.foldlM f s = .error e) (ys : List α) :
    (xs ++ ys).foldlM f s = .error e := by
  rw [List.foldlM_append, h]
  rfl

/-- A fold fails at the first step that fails. -/
theorem foldlM_eq_error_iff : xs.foldlM f s = .error e ↔
    ∃ pre x post mid, xs = pre ++ x :: post ∧ pre.foldlM f s = .ok mid ∧ f mid x = .error e := by
  constructor
  · intro h
    induction xs generalizing s with
    | nil => cases h
    | cons x xs ih =>
        cases hstep : f s x with
        | error e' =>
            rw [foldlM_cons_of_error hstep] at h
            exact ⟨[], x, xs, s, rfl, rfl, hstep.trans h⟩
        | ok s' =>
            rw [foldlM_cons_of_ok hstep] at h
            obtain ⟨pre, y, post, mid, rfl, hpre, hy⟩ := ih h
            exact ⟨x :: pre, y, post, mid, rfl, (foldlM_cons_of_ok hstep pre).trans hpre, hy⟩
  · rintro ⟨pre, x, post, mid, rfl, hpre, hx⟩
    rw [foldlM_append_of_ok hpre, foldlM_cons_of_error hx]

end BoolQuery
